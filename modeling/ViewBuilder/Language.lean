import ViewBuilder.Json.Basic
import ViewBuilder.Table
import ViewBuilder.Target
import ViewBuilder.Text.Blank

/-!
# Language strings

Each string has a key and a scope. Setting a key again replaces its text, so a step that runs
twice over the same input changes nothing the second time.
-/

namespace ViewBuilder

structure LanguageTable where
  admin : Table Text
  site : Table Text
  both : Table Text

namespace LanguageTable

def empty : LanguageTable := ⟨.empty, .empty, .empty⟩

def strings (table : LanguageTable) : Scope → Table Text
  | .admin => table.admin
  | .site => table.site
  | .both => table.both

def withStrings (table : LanguageTable) (strings : Table Text) : Scope → LanguageTable
  | .admin => { table with admin := strings }
  | .site => { table with site := strings }
  | .both => { table with both := strings }

/-- Sets the text of a key, without the blanks around it. -/
def set (table : LanguageTable) (scope : Scope) (key text : Text) : LanguageTable :=
  table.withStrings ((table.strings scope).insert key (Text.trim text)) scope

def get? (table : LanguageTable) (scope : Scope) (key : Text) : Option Text :=
  (table.strings scope).get? key

def size (table : LanguageTable) : Nat := table.admin.size + table.site.size + table.both.size

def isEmpty (table : LanguageTable) : Bool := table.size = 0

/-! ## The strings of one side -/

/-- Adds a string of a scope. A shared string does not replace one that is there already. -/
def addString (scope : Scope) (strings : Table Text) (entry : Text × Text) : Table Text :=
  if scope = .both && strings.contains entry.1 then strings
  else strings.insert entry.1 entry.2

/-- Adds the strings of a scope if they are meant for a side. -/
def addScope (table : LanguageTable) (target : BuildTarget) (strings : Table Text)
    (scope : Scope) : Table Text :=
  if scope.includes target then (table.strings scope).entries.foldl (addString scope) strings
  else strings

/-- The strings that are meant for a side, of one scope after the other. -/
def stringsFor (table : LanguageTable) (target : BuildTarget) : Table Text :=
  [Scope.admin, .site, .both].foldl (table.addScope target) .empty

/-! ## JSON -/

def tableJson (strings : Table Text) : Json :=
  .object (strings.entries.map fun (key, text) => (key, .string text))

/-- The scopes that have strings. -/
def toJson (table : LanguageTable) : Json :=
  let scopes := [Scope.admin, .site, .both].filter fun scope => !(table.strings scope).isEmpty
  .object (scopes.map fun scope => (scope.name, tableJson (table.strings scope)))

end LanguageTable

end ViewBuilder
