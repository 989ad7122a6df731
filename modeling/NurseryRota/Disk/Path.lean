/-!
# Paths

A path is read as a walk: steps up and down from the working directory, or from the root when
it begins with a slash.  Repeated slashes and single dots are no steps.  A path that ends in a
slash or in dots can name a directory only.
-/

namespace NurseryRota

inductive Step
  | up
  | down (name : String)
deriving DecidableEq, Repr

inductive Ending
  | name
  | slash
  | dots
deriving DecidableEq, Repr

structure Path where
  text : String
  absolute : Bool
  steps : List Step
  ending : Ending
deriving DecidableEq, Repr

namespace Path

def parts (s : String) : List String :=
  ((s.toList.splitBy fun a b => a ≠ '/' && b ≠ '/').filter (· ≠ ['/'])).map String.ofList

def step? (part : String) : Option Step :=
  if part = "." then none
  else if part = ".." then some .up
  else some (.down part)

def ofText (s : String) : Path :=
  let parts := parts s
  { text := s
    absolute := s.toList.head? = some '/'
    steps := parts.filterMap step?
    ending :=
      if parts.getLast? = some "." || parts.getLast? = some ".." then .dots
      else if s.toList.getLast? = some '/' then .slash
      else .name }

/-- A text, read from its end, without the slashes and single dots there that are no steps.  The
slash of the root stays, and so does a dot with nothing before it. -/
def bare : List Char → List Char
  | ['/'] => ['/']
  | ['.', '/'] => ['/']
  | '/' :: rest => bare rest
  | '.' :: '/' :: rest => bare rest
  | cs => cs

/-- The directory that the last part of a path stands in; it is the empty path for a path of one
part.  The root and the empty path stand in none. -/
def directory? (p : Path) : Option Path :=
  match bare p.text.toList.reverse with
  | [] => none
  | ['/'] => none
  | cs => some (ofText (String.ofList (bare (cs.dropWhile (· ≠ '/'))).reverse))

/-- A name without its extension, which starts at the last dot that is not the first
character. -/
def stem (name : String) : String :=
  let cs := name.toList
  match (cs.reverse.dropWhile (· ≠ '.')).drop 1 with
  | [] => name
  | rest => String.ofList rest.reverse

/-- A name with its extension replaced.  A name whose stem is a dot, such as `..log`, becomes two
dots: with its old extension removed it is a step up, and that takes no extension. -/
def renamed (name extension : String) : String :=
  if stem name = "." then ".." else stem name ++ "." ++ extension

/-- The path with the extension of its last name replaced; a path that does not end in a name
stays. -/
def withExtension (p : Path) (extension : String) : Path :=
  match p.ending, p.steps.getLast? with
  | .name, some (.down name) =>
    let before := p.text.toList.take (p.text.length - name.length)
    ofText (String.ofList before ++ renamed name extension)
  | _, _ => p

end Path

end NurseryRota
