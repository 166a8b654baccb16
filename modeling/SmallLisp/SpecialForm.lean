/-! # Special forms

The five forms that do not evaluate all of their arguments first.  Their keywords are reserved:
nothing can be bound under them.
-/
namespace SmallLisp

/-- The special forms. -/
inductive SpecialForm where
  /-- `(let name value)` binds a name in the current scope. -/
  | define
  /-- `(quote value)` is the value as it stands. -/
  | quote
  /-- `(fn (parameters) body)` is a function. -/
  | lambda
  /-- `(if condition then else)` evaluates one of two branches. -/
  | conditional
  /-- `(require path)` is a module. -/
  | require
  deriving DecidableEq, Repr

namespace SpecialForm

/-- The word that introduces a special form. -/
def keyword : SpecialForm → String
  | define => "let"
  | quote => "quote"
  | lambda => "fn"
  | conditional => "if"
  | require => "require"

/-- All special forms. -/
def all : List SpecialForm :=
  [define, quote, lambda, conditional, require]

/-- The special form with a given keyword. -/
def ofKeyword? (word : String) : Option SpecialForm :=
  all.find? fun form => form.keyword == word

/-- Whether a name is reserved. -/
def isKeyword (word : String) : Bool :=
  (ofKeyword? word).isSome

theorem ofKeyword?_keyword (form : SpecialForm) : ofKeyword? form.keyword = some form := by
  cases form <;> rfl

theorem keyword_of_ofKeyword? {word : String} {form : SpecialForm}
    (h : ofKeyword? word = some form) : form.keyword = word := by
  simpa using List.find?_some h

end SpecialForm

end SmallLisp
