import ViewBuilder.Entries
import ViewBuilder.Json.Basic

/-!
# Compiled tabs

A compiled tab is stored as one JSON object. What belongs to its permission is stored beside its
own fields, and is there when the tab is guarded.
-/

namespace ViewBuilder

structure TabPermission where
  permission : Nat
  lang : Text
  langDesc : Text
  langTitle : Text
  sortKey : Text
deriving DecidableEq

structure CustomTab where
  view : Text
  name : Text
  code : Text
  html : Text
  lang : Text
  permission : Option TabPermission
deriving DecidableEq

/-! ## JSON -/

def textAt? (name : String) (entries : List (Text × Json)) : Option Text :=
  match Entries.get? name.toList entries with
  | some (.string t) => some t
  | _ => none

/-- A number from 0 to 255. -/
def byteAt? (name : String) (entries : List (Text × Json)) : Option Nat :=
  match Entries.get? name.toList entries with
  | some (.number (.integer n)) => if 0 ≤ n ∧ n < 256 then some n.toNat else none
  | _ => none

namespace TabPermission

def fields (p : TabPermission) : List (Text × Json) :=
  [("permission".toList, .nat p.permission),
   ("lang_permission".toList, .string p.lang),
   ("lang_permission_desc".toList, .string p.langDesc),
   ("lang_permission_title".toList, .string p.langTitle),
   ("sortKey".toList, .string p.sortKey)]

/-- The permission among the fields of a tab; none unless all of it is there. -/
def ofFields? (entries : List (Text × Json)) : Option TabPermission := do
  let permission ← byteAt? "permission" entries
  let lang ← textAt? "lang_permission" entries
  let langDesc ← textAt? "lang_permission_desc" entries
  let langTitle ← textAt? "lang_permission_title" entries
  let sortKey ← textAt? "sortKey" entries
  some { permission, lang, langDesc, langTitle, sortKey }

end TabPermission

namespace CustomTab

def ownFields (tab : CustomTab) : List (Text × Json) :=
  [("view".toList, .string tab.view), ("name".toList, .string tab.name),
   ("code".toList, .string tab.code), ("html".toList, .string tab.html),
   ("lang".toList, .string tab.lang)]

def toJson (tab : CustomTab) : Json :=
  .object (tab.ownFields ++ (tab.permission.map TabPermission.fields).getD [])

def ofFields? (entries : List (Text × Json)) : Option CustomTab := do
  let view ← textAt? "view" entries
  let name ← textAt? "name" entries
  let code ← textAt? "code" entries
  let html ← textAt? "html" entries
  let lang ← textAt? "lang" entries
  some { view, name, code, html, lang, permission := TabPermission.ofFields? entries }

def ofJson? (value : Json) : Option CustomTab := value.entries?.bind ofFields?

def listToJson (tabs : List CustomTab) : Json := .array (tabs.map toJson)

def listOfJson? : Json → Option (List CustomTab)
  | .array items => items.mapM ofJson?
  | _ => none

end CustomTab

end ViewBuilder
