import StyledMarkup.Text.Basic

/-!
# The HTML vocabulary

Tag names, the attributes that every element takes, those that single elements take, and the void
elements. The order of each table is fixed; a name stands in a table once.
-/

namespace StyledMarkup.Vocabulary

/-! ## Tables -/

/-- The known tag names, obsolete ones included. -/
def tags : List Text :=
  ["a", "abbr", "acronym", "address", "applet", "area", "article", "aside", "audio", "b", "base",
    "basefont", "bdi", "bdo", "bgsound", "big", "blink", "blockquote", "body", "br", "button",
    "canvas", "caption", "center", "cite", "code", "col", "colgroup", "command", "content", "data",
    "datalist", "dd", "del", "details", "dfn", "dialog", "dir", "div", "dl", "dt", "element", "em",
    "embed", "fieldset", "figcaption", "figure", "font", "footer", "form", "frame", "frameset",
    "h1", "h2", "h3", "h4", "h5", "h6", "head", "header", "hgroup", "hr", "html", "i", "iframe",
    "image", "img", "input", "ins", "isindex", "kbd", "keygen", "label", "legend", "li", "link",
    "listing", "main", "map", "mark", "marquee", "math", "menu", "menuitem", "meta", "meter",
    "multicol", "nav", "nextid", "nobr", "noembed", "noframes", "noscript", "object", "ol",
    "optgroup", "option", "output", "p", "param", "picture", "plaintext", "pre", "progress", "q",
    "rb", "rbc", "rp", "rt", "rtc", "ruby", "s", "samp", "script", "search", "section", "select",
    "shadow", "slot", "small", "source", "spacer", "span", "strike", "strong", "style", "sub",
    "summary", "sup", "svg", "table", "tbody", "td", "template", "textarea", "tfoot", "th",
    "thead", "time", "title", "tr", "track", "tt", "u", "ul", "var", "video", "wbr",
    "xmp"].map String.toList

/-- Attributes that every element takes, event handlers and ARIA attributes apart. -/
def globalAttributes : List Text :=
  ["accesskey", "autocapitalize", "autofocus", "class", "contenteditable", "dir", "draggable",
    "enterkeyhint", "hidden", "id", "inert", "inputmode", "is", "itemid", "itemprop", "itemref",
    "itemscope", "itemtype", "lang", "nonce", "popover", "slot", "spellcheck", "style", "tabindex",
    "title", "translate", "writingsuggestions"].map String.toList

/-- Event handlers. Several declarations of one of them add up. -/
def eventAttributes : List Text :=
  ["onabort", "onafterprint", "onauxclick", "onbeforematch", "onbeforeprint", "onbeforetoggle",
    "onbeforeunload", "onblur", "oncancel", "oncanplay", "oncanplaythrough", "onchange", "onclick",
    "onclose", "oncontextlost", "oncontextmenu", "oncontextrestored", "oncopy", "oncuechange",
    "oncut", "ondblclick", "ondrag", "ondragend", "ondragenter", "ondragexit", "ondragleave",
    "ondragover", "ondragstart", "ondrop", "ondurationchange", "onemptied", "onended", "onerror",
    "onfocus", "onformdata", "onhashchange", "oninput", "oninvalid", "onkeydown", "onkeypress",
    "onkeyup", "onlanguagechange", "onload", "onloadeddata", "onloadedmetadata", "onloadend",
    "onloadstart", "onmessage", "onmessageerror", "onmousedown", "onmouseenter", "onmouseleave",
    "onmousemove", "onmouseout", "onmouseover", "onmouseup", "onoffline", "ononline", "onpagehide",
    "onpagereveal", "onpageshow", "onpageswap", "onpaste", "onpause", "onplay", "onplaying",
    "onpopstate", "onprogress", "onratechange", "onrejectionhandled", "onreset", "onresize",
    "onscroll", "onscrollend", "onsecuritypolicyviolation", "onseeked", "onseeking", "onselect",
    "onslotchange", "onstalled", "onstorage", "onsubmit", "onsuspend", "ontimeupdate", "ontoggle",
    "onunhandledrejection", "onunload", "onvolumechange", "onwaiting", "onwheel"].map String.toList

/-- The WAI-ARIA states and properties. -/
def ariaAttributes : List Text :=
  ["aria-activedescendant", "aria-atomic", "aria-autocomplete", "aria-braillelabel",
    "aria-brailleroledescription", "aria-busy", "aria-checked", "aria-colcount", "aria-colindex",
    "aria-colindextext", "aria-colspan", "aria-controls", "aria-current", "aria-describedby",
    "aria-description", "aria-details", "aria-disabled", "aria-dropeffect", "aria-errormessage",
    "aria-expanded", "aria-flowto", "aria-grabbed", "aria-haspopup", "aria-hidden", "aria-invalid",
    "aria-keyshortcuts", "aria-label", "aria-labelledby", "aria-level", "aria-live", "aria-modal",
    "aria-multiline", "aria-multiselectable", "aria-orientation", "aria-owns", "aria-placeholder",
    "aria-posinset", "aria-pressed", "aria-readonly", "aria-relevant", "aria-required",
    "aria-roledescription", "aria-rowcount", "aria-rowindex", "aria-rowindextext", "aria-rowspan",
    "aria-selected", "aria-setsize", "aria-sort", "aria-valuemax", "aria-valuemin",
    "aria-valuenow", "aria-valuetext"].map String.toList

/-- Elements without a closing tag. -/
def voidElements : List Text :=
  ["area", "base", "br", "col", "embed", "hr", "img", "input", "link", "meta", "param", "source",
    "track", "wbr"].map String.toList

/-- The attributes of single elements: each row gives the tags it is about and their attributes. -/
def elementRows : List (List String × List String) :=
  [(["a"],
    ["charset", "coords", "download", "href", "hreflang", "name", "ping", "referrerpolicy", "rel",
      "rev", "shape", "target", "type"]),
   (["applet"],
    ["align", "alt", "archive", "code", "codebase", "height", "hspace", "name", "object", "vspace",
      "width"]),
   (["area"],
    ["alt", "coords", "download", "href", "hreflang", "nohref", "ping", "referrerpolicy", "rel",
      "shape", "target", "type"]),
   (["audio"], ["autoplay", "controls", "crossorigin", "loop", "muted", "preload", "src"]),
   (["base"], ["href", "target"]),
   (["basefont", "font"], ["color", "face", "size"]),
   (["blockquote", "q"], ["cite"]),
   (["body"], ["alink", "background", "bgcolor", "link", "text", "vlink"]),
   (["br"], ["clear"]),
   (["button"],
    ["disabled", "form", "formaction", "formenctype", "formmethod", "formnovalidate", "formtarget",
      "name", "popovertarget", "popovertargetaction", "type", "value"]),
   (["canvas"], ["height", "width"]),
   (["caption", "div", "legend", "p", "h1", "h2", "h3", "h4", "h5", "h6"], ["align"]),
   (["col", "colgroup"], ["align", "char", "charoff", "span", "valign", "width"]),
   (["data"], ["value"]),
   (["del", "ins"], ["cite", "datetime"]),
   (["details"], ["name", "open"]),
   (["dialog"], ["open"]),
   (["dir", "dl", "menu"], ["compact"]),
   (["embed"], ["height", "src", "type", "width"]),
   (["fieldset"], ["disabled", "form", "name"]),
   (["form"],
    ["accept", "accept-charset", "action", "autocomplete", "enctype", "method", "name",
      "novalidate", "target"]),
   (["frame"],
    ["frameborder", "longdesc", "marginheight", "marginwidth", "name", "noresize", "scrolling",
      "src"]),
   (["frameset"], ["cols", "rows"]),
   (["head"], ["profile"]),
   (["hr"], ["align", "noshade", "size", "width"]),
   (["html"], ["manifest", "version"]),
   (["iframe"],
    ["align", "allow", "allowfullscreen", "allowpaymentrequest", "allowusermedia", "frameborder",
      "height", "loading", "longdesc", "marginheight", "marginwidth", "name", "referrerpolicy",
      "sandbox", "scrolling", "src", "srcdoc", "width"]),
   (["img"],
    ["align", "alt", "border", "crossorigin", "decoding", "fetchpriority", "height", "hspace",
      "ismap", "loading", "longdesc", "name", "referrerpolicy", "sizes", "src", "srcset", "usemap",
      "vspace", "width"]),
   (["input"],
    ["accept", "align", "alt", "autocomplete", "checked", "dirname", "disabled", "form",
      "formaction", "formenctype", "formmethod", "formnovalidate", "formtarget", "height", "ismap",
      "list", "max", "maxlength", "min", "minlength", "multiple", "name", "pattern", "placeholder",
      "popovertarget", "popovertargetaction", "readonly", "required", "size", "src", "step",
      "type", "usemap", "value", "width"]),
   (["isindex"], ["prompt"]),
   (["label"], ["for", "form"]),
   (["li"], ["type", "value"]),
   (["link"],
    ["as", "blocking", "charset", "color", "crossorigin", "disabled", "fetchpriority", "href",
      "hreflang", "imagesizes", "imagesrcset", "integrity", "media", "referrerpolicy", "rel",
      "rev", "sizes", "target", "type"]),
   (["map", "slot"], ["name"]),
   (["meta"], ["charset", "content", "http-equiv", "media", "name", "scheme"]),
   (["meter"], ["high", "low", "max", "min", "optimum", "value"]),
   (["object"],
    ["align", "archive", "border", "classid", "codebase", "codetype", "data", "declare", "form",
      "height", "hspace", "name", "standby", "type", "typemustmatch", "usemap", "vspace",
      "width"]),
   (["ol"], ["compact", "reversed", "start", "type"]),
   (["optgroup"], ["disabled", "label"]),
   (["option"], ["disabled", "label", "selected", "value"]),
   (["output"], ["for", "form", "name"]),
   (["param"], ["name", "type", "value", "valuetype"]),
   (["pre"], ["width"]),
   (["progress"], ["max", "value"]),
   (["script"],
    ["async", "blocking", "charset", "crossorigin", "defer", "fetchpriority", "integrity",
      "language", "nomodule", "referrerpolicy", "src", "type"]),
   (["select"], ["autocomplete", "disabled", "form", "multiple", "name", "required", "size"]),
   (["source"], ["height", "media", "sizes", "src", "srcset", "type", "width"]),
   (["style"], ["blocking", "media", "type"]),
   (["table"],
    ["align", "bgcolor", "border", "cellpadding", "cellspacing", "frame", "rules", "summary",
      "width"]),
   (["tbody", "tfoot", "thead"], ["align", "char", "charoff", "valign"]),
   (["td", "th"],
    ["abbr", "align", "axis", "bgcolor", "char", "charoff", "colspan", "headers", "height",
      "nowrap", "rowspan", "scope", "valign", "width"]),
   (["template"], ["shadowrootclonable", "shadowrootdelegatesfocus", "shadowrootmode"]),
   (["textarea"],
    ["autocomplete", "cols", "dirname", "disabled", "form", "maxlength", "minlength", "name",
      "placeholder", "readonly", "required", "rows", "wrap"]),
   (["time"], ["datetime"]),
   (["tr"], ["align", "bgcolor", "char", "charoff", "valign"]),
   (["track"], ["default", "kind", "label", "src", "srclang"]),
   (["ul"], ["compact", "type"]),
   (["video"],
    ["autoplay", "controls", "crossorigin", "height", "loop", "muted", "playsinline", "poster",
      "preload", "src", "width"])]

/-- The rows of `elementRows` as texts. -/
def elementTable : List (List Text × List Text) :=
  elementRows.map fun row ↦ (row.1.map String.toList, row.2.map String.toList)

/-! ## Look-up -/

def isTag (name : Text) : Bool :=
  tags.contains name

def isEvent (name : Text) : Bool :=
  eventAttributes.contains name

def isVoid (tag : Text) : Bool :=
  voidElements.contains tag

def isGlobal (name : Text) : Bool :=
  globalAttributes.contains name || isEvent name || ariaAttributes.contains name

/-- The attributes that elements with this tag take beyond those that every element takes. -/
def elementAttributes (tag : Text) : List Text :=
  match elementTable.find? fun row ↦ row.1.contains tag with
  | some row => row.2
  | none => []

/-- An attribute that at least one tag takes for itself. -/
def isElementAttribute (name : Text) : Bool :=
  elementTable.any fun row ↦ row.2.contains name

end StyledMarkup.Vocabulary
