import Hypertext.Scope

set_option autoImplicit false

/-! # The code of the helpers

Two of the helpers can be written out. The third always comes from a module of its own. -/

namespace Hypertext
namespace Script

/-- Appends every value in order. Arrays are flattened; null, undefined and booleans are passed
over; anything else that is no node becomes text, in the text node before it if there is one. -/
def appendChildSource : Text :=
  Text.joinWith ['\n'] <| List.map String.toList
    ["function appendChild(el, childs) \x7b",
      "  for (var i = 0; i < childs.length; i++) \x7b",
      "    var node = childs[i];",
      "    if (Array.isArray(node)) \x7b",
      "      appendChild(el, node);",
      "      continue;",
      "    \x7d",
      "    if (node === null || node === undefined || typeof node === 'boolean') \x7b",
      "      continue;",
      "    \x7d",
      "    if (!node.nodeType) \x7b",
      "      node = String(node);",
      "      var last = el.lastChild;",
      "      if (last && last.nodeName === '#text') \x7b",
      "        last.nodeValue += node;",
      "        continue;",
      "      \x7d",
      "      node = document.createTextNode(node);",
      "    \x7d",
      "    el.appendChild(node);",
      "  \x7d",
      "\x7d"]

/-- Classifies an attribute by its name when the code runs. -/
def setAttributeSource : Text :=
  Text.joinWith ['\n'] <| List.map String.toList
    ["function setAttribute(el, attr, value) \x7b",
      "  if (attr && typeof attr === 'object') \x7b",
      "    for (var key in attr) \x7b",
      "      if (Object.prototype.hasOwnProperty.call(attr, key)) "
        ++ "setAttribute(el, key, attr[key]);",
      "    \x7d",
      "    return;",
      "  \x7d",
      "  if (!attr) return;",
      "  if (attr === 'className') attr = 'class';",
      "  if (attr === 'htmlFor') attr = 'for';",
      "  if (attr.slice(0, 2) === 'on') \x7b",
      "    el[attr] = value;",
      "  \x7d else if (value === false || value === null || value === undefined) \x7b",
      "    el.removeAttribute(attr);",
      "  \x7d else if (value === true) \x7b",
      "    el.setAttribute(attr, attr);",
      "  \x7d else \x7b",
      "    el.setAttribute(attr, value);",
      "  \x7d",
      "\x7d"]

/-- The code of a helper, if it can be written out. -/
def helperSource? : Helper → Option Text
  | .appendChild => some appendChildSource
  | .setAttribute => some setAttributeSource
  | .onLoad => none

/-- A helper as a module that exports it. -/
def helperModule? (helper : Helper) : Option Text :=
  (helperSource? helper).map fun code =>
    "'use strict'\n\nmodule.exports = ".toList ++ code ++ ";\n".toList

end Script
end Hypertext
