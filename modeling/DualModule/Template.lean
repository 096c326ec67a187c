import DualModule.Utf8
/-!
# Argument templates

A template is the text of one generator argument, with a placeholder for the output directory.
`{{` and `}}` stand for single braces, `{out}` for the directory; a single `}` stands for itself.

**Tokens.**  `Template.tokens` cuts a template into tokens from left to right.  A placeholder's
name runs to the next `}`, whatever it contains, and a `{` with no `}` behind it swallows the rest
of the template.  Rendering is then token by token, and the first token that cannot be rendered
decides the error.

## Main Definitions

* `Template.Token`, `Template.tokens`
* `TemplateError`, `Template.render`
-/

namespace DualModule

/-- Why a template cannot be rendered. -/
inductive TemplateError where
  | unknownPlaceholder (name template : Text)
  | unterminatedPlaceholder (template : Text)
deriving DecidableEq

namespace Template

/-- A piece of a template. -/
inductive Token where
  /-- `{{` -/
  | openBrace
  /-- `}}` -/
  | closeBrace
  /-- `{name}` -/
  | placeholder (name : Text)
  /-- `{` with no `}` behind it, and all that follows it -/
  | unterminated (rest : Text)
  /-- any other character, a single `}` included -/
  | plain (c : Char)
deriving DecidableEq

/-- Cuts a template into tokens; inside a placeholder, `name` holds what has been read of its name,
last character first. -/
def tokensFrom : Option Text → Text → List Token
  | none, [] => []
  | some name, [] => [.unterminated name.reverse]
  | some name, '}' :: cs => .placeholder name.reverse :: tokensFrom none cs
  | some name, c :: cs => tokensFrom (some (c :: name)) cs
  | none, '{' :: '{' :: cs => .openBrace :: tokensFrom none cs
  | none, '}' :: '}' :: cs => .closeBrace :: tokensFrom none cs
  | none, '{' :: cs => tokensFrom (some []) cs
  | none, c :: cs => .plain c :: tokensFrom none cs

/-- The tokens of a template. -/
def tokens (template : Text) : List Token := tokensFrom none template

/-- The text that a token of `template` stands for. -/
def renderToken (template out : Text) : Token → Except TemplateError Text
  | .openBrace => .ok ['{']
  | .closeBrace => .ok ['}']
  | .plain c => .ok [c]
  | .unterminated _ => .error (.unterminatedPlaceholder template)
  | .placeholder name =>
    if name = "out".toList then .ok out else .error (.unknownPlaceholder name template)

/-- Renders a token list; the first token that cannot be rendered decides the error. -/
def renderTokens (template out : Text) : List Token → Except TemplateError Text
  | [] => .ok []
  | t :: ts => do
    let text ← renderToken template out t
    return text ++ (← renderTokens template out ts)

/-- The argument that a template stands for when the output directory is `out`. -/
def render (template out : Text) : Except TemplateError Text :=
  renderTokens template out (tokens template)

end Template

end DualModule
