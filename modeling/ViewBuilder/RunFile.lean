import ViewBuilder.Alias
import ViewBuilder.ViewItem

/-!
# Run files

A run file is a JSON text with all that a run needs: the views, the aliases that they refer to,
placeholders, snippets, and perhaps a config.
-/

namespace ViewBuilder

open Json (Document)
open Json.Document

/-! ## Aliases -/

namespace Fragment

def fieldNames : List Text := ["html", "php_view"]

def ofDocument? (document : Document) : Option Fragment := do
  let fields ← recordFields? fieldNames document
  let html ← fields.withDefault? "html" [] text?
  let phpView ← fields.withDefault? "php_view" [] text?
  some { html, phpView }

end Fragment

namespace AliasEntry

def fieldNames : List Text := ["name", "view", "html", "php_view"]

def ofDocument? (document : Document) : Option AliasEntry := do
  let fields ← recordFields? fieldNames document
  let name ← fields.required? "name" text?
  let view ← fields.optional? "view" text?
  let html ← fields.withDefault? "html" [] text?
  let phpView ← fields.withDefault? "php_view" [] text?
  some { name, view, fragment := { html, phpView } }

def toJson (entry : AliasEntry) : Json :=
  .object <|
    ("name".toList, .string entry.name) ::
      ((entry.view.toList.map fun view => ("view".toList, Json.string view)) ++
        [("html".toList, .string entry.fragment.html),
         ("php_view".toList, .string entry.fragment.phpView)])

end AliasEntry

namespace AliasSet

def fieldNames : List Text := ["templates", "layouts"]

def empty : AliasSet := ⟨[], []⟩

def ofDocument? (document : Document) : Option AliasSet := do
  let fields ← recordFields? fieldNames document
  let templates ← fields.withDefault? "templates" [] (list? AliasEntry.ofDocument?)
  let layouts ← fields.withDefault? "layouts" [] (list? AliasEntry.ofDocument?)
  some { templates, layouts }

def toJson (set : AliasSet) : Json :=
  .object [("templates".toList, .array (set.templates.map AliasEntry.toJson)),
    ("layouts".toList, .array (set.layouts.map AliasEntry.toJson))]

end AliasSet

/-! ## The whole file -/

structure RunFile where
  config : Option Config
  views : List ViewItem
  aliases : AliasSet
  /-- The values of placeholders by their keys. -/
  placeholders : Table Text
  /-- The snippets by their ids. -/
  customCode : Table Text

namespace RunFile

def fieldNames : List Text := ["config", "views", "aliases", "placeholders", "custom_code"]

def ofDocument? (document : Document) : Option RunFile := do
  let fields ← recordFields? fieldNames document
  let config ← fields.optional? "config" Config.ofDocument?
  let views ← fields.required? "views" (list? ViewItem.ofDocument?)
  let aliases ← fields.withDefault? "aliases" AliasSet.empty AliasSet.ofDocument?
  let placeholders ← fields.withDefault? "placeholders" Table.empty textTable?
  let customCode ← fields.withDefault? "custom_code" Table.empty textTable?
  some { config, views, aliases, placeholders, customCode }

/-- Reads the text of a run file; its path is for the message alone. -/
def parse (t path : Text) : Except Failure RunFile :=
  match (Document.parse? t).bind ofDocument? with
  | some file => .ok file
  | none => .error (.runFile path "the text does not read as a run file")

end RunFile

end ViewBuilder
