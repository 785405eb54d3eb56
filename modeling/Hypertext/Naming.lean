import Hypertext.Markup.Node
import Hypertext.Placeholder
import Hypertext.Text.Blank
import Hypertext.Text.CamelCase

set_option autoImplicit false

/-! # Names of elements

What the code calls an element is taken from its markup: its id, else the first of its classes, else
its tag. The tag also decides whether an element belongs to SVG. -/

namespace Hypertext

/-- The hint for an element without id, class and tag. -/
def fallbackHint : Text := "bel".toList

/-- A raw text in camel case, or as it is if nothing remains of it. -/
def camelHint (raw : Text) : Text :=
  match raw.camelCase with
  | [] => raw
  | cased => cased

/-- The hint for the name of an element. An id or class that holds a placeholder gives none. -/
def elementHint (attributes : Attributes) (tag : Text) : Text :=
  match (attributes.get? "id".toList).filter fun id => !Placeholder.contained id with
  | some id => camelHint id
  | none =>
    match ((attributes.get? "className".toList).filter fun names =>
        !Placeholder.contained names).bind Text.firstWord? with
    | some name => camelHint name
    | none => if tag.isEmpty then fallbackHint else tag

/-- The elements of SVG, except those that HTML has too. -/
def svgTags : List Text :=
  ["altGlyph", "altGlyphDef", "altGlyphItem", "animate", "animateColor", "animateMotion",
    "animateTransform", "circle", "clipPath", "color-profile", "cursor", "defs", "desc", "ellipse",
    "feBlend", "feColorMatrix", "feComponentTransfer", "feComposite", "feConvolveMatrix",
    "feDiffuseLighting", "feDisplacementMap", "feDistantLight", "feDropShadow", "feFlood",
    "feFuncA", "feFuncB", "feFuncG", "feFuncR", "feGaussianBlur", "feImage", "feMerge",
    "feMergeNode", "feMorphology", "feOffset", "fePointLight", "feSpecularLighting", "feSpotLight",
    "feTile", "feTurbulence", "filter", "font-face", "font-face-format", "font-face-name",
    "font-face-src", "font-face-uri", "foreignObject", "g", "glyph", "glyphRef", "hkern", "image",
    "line", "linearGradient", "marker", "mask", "metadata", "missing-glyph", "mpath", "path",
    "pattern", "polygon", "polyline", "radialGradient", "rect", "set", "stop", "svg", "switch",
    "symbol", "text", "textPath", "tref", "tspan", "use", "view", "vkern"].map String.toList

/-- Whether a tag names an element of SVG. -/
def isSvgTag (tag : Text) : Bool := svgTags.contains tag

end Hypertext
