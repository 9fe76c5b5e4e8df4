import ViewBuilder.Config
import ViewBuilder.Placeholders
import ViewBuilder.Text.Identifier

/-!
# View items

A view item is what the metadata says about one view. Few of its fields are read here; the others
are kept as they are.
-/

namespace ViewBuilder

structure ViewItem where
  /-- The code name of a single record, which names the view. -/
  singleCode : Text
  listCode? : Option Text := none
  singleName : Option Text := none
  listName : Option Text := none
  /-- The raw tabs; taken out when they are compiled. -/
  customTabs : Option Json := none
  /-- Further markup of the view, which may refer to templates and layouts. -/
  markup : List Text := []
  extra : List (Text × Json) := []

namespace ViewItem

/-- The code name of the list of records: the single one with an `s`, unless another is given. -/
def listCode (item : ViewItem) : Text :=
  match item.listCode? with
  | some code => if Text.allBlank code then item.singleCode ++ "s" else code
  | none => item.singleCode ++ "s"

/-! ## JSON -/

def fieldNames : List Text :=
  ["name_single_code", "name_list_code", "name_single", "name_list", "customtabs", "markup"]

open Json in
/-- The entries for the fields that are known by name. -/
def ownFields (item : ViewItem) : List (Text × Json) :=
  ("name_single_code".toList, .string item.singleCode) ::
    (optionalField "name_list_code" (item.listCode?.map .string) ++
      optionalField "name_single" (item.singleName.map .string) ++
      optionalField "name_list" (item.listName.map .string) ++
      optionalField "customtabs" item.customTabs ++
      optionalField "markup" (if item.markup.isEmpty then none else some (.texts item.markup)))

def toJson (item : ViewItem) : Json := .object (item.ownFields ++ item.extra)

open Json.Document in
/-- Reads a view item; the fields that are not known by name must be readable too. -/
def ofDocument? (document : Json.Document) : Option ViewItem := do
  let fields ← objectFields? fieldNames document
  let singleCode ← fields.required? "name_single_code" text?
  let listCode? ← fields.optional? "name_list_code" text?
  let singleName ← fields.optional? "name_single" text?
  let listName ← fields.optional? "name_list" text?
  let customTabs ← fields.optional? "customtabs" value?
  let markup ← fields.withDefault? "markup" [] (list? text?)
  let extra ← entryValues? (fields.filter fun entry => !fieldNames.contains entry.1)
  some { singleCode, listCode?, singleName, listName, customTabs, markup,
         extra := Entries.collapse extra }

def ofJson? (value : Json) : Option ViewItem := ofDocument? (.ofJson value)

end ViewItem

/-! ## Names for placeholders -/

namespace Placeholders

open Identifier

def setComponentNames (p : Placeholders) (component : Text) : Placeholders :=
  ((p.set "component" component).set "Component" (titleCase component)).set
    "COMPONENT" (ofLabel .upper component)

/-- Sets the names of a view and of the component. A name that the item gives for people wins over
one made from the code name. -/
def setViewNames (p : Placeholders) (item : ViewItem) (config : Config) : Placeholders :=
  let single := item.singleCode
  let list := item.listCode
  let named :=
    ((((((p.set "view" single).set "views" list).set
      "VIEW" (ofLabel .upper single)).set
      "VIEWS" (ofLabel .upper list)).set
      "View" (item.singleName.getD (titleCase single))).set
      "Views" (item.listName.getD (titleCase list)))
  match config.componentCode with
  | some component => named.setComponentNames component
  | none => named

end Placeholders

end ViewBuilder
