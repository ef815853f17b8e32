import StyledMarkup.Text.Basic

/-!
# Pages

A page is a template with the HTML fragment in its container and the stylesheet in its style
element. Both places are marked in the template by an empty element.
-/

namespace StyledMarkup.Page

/-- The container of the HTML fragment. -/
def appPlaceholder : Text := "<div id=\"app\"></div>".toList

/-- The element of the stylesheet. -/
def stylePlaceholder : Text := "<style id=\"stylesheet\"></style>".toList

/-- The template of a project that has none. -/
def defaultTemplate : Text :=
  ("<!DOCTYPE html>\n<html>\n<head>\n  <meta charset=\"UTF-8\">\n" ++
    "  <style id=\"stylesheet\"></style>\n</head>\n<body>\n  <div id=\"app\"></div>\n" ++
    "</body>\n</html>\n").toList

/-- The container with a fragment in it. -/
def filledApp (html : Text) : Text :=
  "<div id=\"app\">\n".toList ++ html ++ "\n</div>".toList

/-- The style element with a stylesheet in it. -/
def filledStyle (css : Text) : Text :=
  "<style id=\"stylesheet\">\n".toList ++ css ++ "\n</style>".toList

/-- The page of a template. The fragment goes to the first container; the stylesheet then goes to
the first style element of what that gives. -/
def inject (template html css : Text) : Text :=
  Text.replaceFirst stylePlaceholder (filledStyle css)
    (Text.replaceFirst appPlaceholder (filledApp html) template)

/-- The placeholder that a template lacks, the container before the style element. -/
def missing? (template : Text) : Option Text :=
  [appPlaceholder, stylePlaceholder].find? fun piece ↦ (Text.splitAround? piece template).isNone

end StyledMarkup.Page
