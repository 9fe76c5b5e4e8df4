import ViewBuilder.CustomCode
import ViewBuilder.Language
import ViewBuilder.Registry
import ViewBuilder.Tab
import ViewBuilder.Tab.Markup
import ViewBuilder.Tab.Raw
import ViewBuilder.ViewItem

/-!
# Compiling tabs

A raw tab becomes a compiled tab and a few language strings. All its identifiers are made from its
name and from the names of the view. The tabs of a view are stored together, under the view.
-/

namespace ViewBuilder

open Identifier

/-- What compiling a tab reads. -/
structure TabContext where
  config : Config
  placeholders : Placeholders
  customCode : CustomCode
  view : Text

/-- A compiled tab with the language strings that it needs, in the order they are set. -/
structure CompiledTab where
  tab : CustomTab
  strings : List (Text × Text)
deriving DecidableEq

namespace TabContext

/-! ## Names -/

def defaultName : Text := "Tab"

/-- The name of a tab: the raw one, if an identifier can be made from it. -/
def tabName (raw : RawTab) : Text :=
  match raw.name with
  | some name => if (ofLabel .lower name).isEmpty then defaultName else name
  | none => defaultName

def langKey (context : TabContext) (name : Text) : Text :=
  context.config.langPrefix ++ "_" ++ ofLabel .upper context.view ++ "_" ++ ofLabel .upper name

/-- A name of the view for people or for code, or the view itself where none is set. -/
def viewLabel (context : TabContext) (key : Text) : Text :=
  let label := context.placeholders.get key
  if label.isEmpty then context.view else label

/-! ## Permission -/

def permissionTitle (context : TabContext) (name : Text) : Text :=
  Text.trim (context.viewLabel "Views" ++ " View " ++ name ++ " Tab")

def permissionDescription (context : TabContext) (name : Text) : Text :=
  "Allow the users in this group to view " ++ name ++ " Tab of " ++ context.viewLabel "views"

def permission (context : TabContext) (name : Text) : TabPermission :=
  let title := context.permissionTitle name
  let lang := context.langKey name
  { permission := 1
    lang := lang ++ "_TAB_PERMISSION"
    langDesc := lang ++ "_TAB_PERMISSION_DESC"
    langTitle := title
    sortKey := ofLabel .lower title }

/-! ## One tab -/

/-- The body of a tab with its placeholders, references and regions filled in. -/
def body (context : TabContext) (raw : RawTab) : Text :=
  context.customCode.update (context.placeholders.update raw.html)

def html (context : TabContext) (raw : RawTab) : Text :=
  let name := tabName raw
  let code := ofLabel .lower name
  let wrapped := TabMarkup.wrap context.view code (context.langKey name) (context.body raw)
  if raw.guarded then TabMarkup.guard context.view code (wrapped (Markup.indent 1))
  else wrapped []

def compileTab (context : TabContext) (raw : RawTab) : CompiledTab :=
  let name := tabName raw
  let lang := context.langKey name
  let permission := context.permission name
  { tab :=
      { view := context.view
        name := name
        code := ofLabel .lower name
        html := context.html raw
        lang := lang
        permission := if raw.guarded then some permission else none }
    strings :=
      (lang, name) ::
        if raw.guarded then
          [(permission.lang, permission.langTitle),
           (permission.langDesc, context.permissionDescription name)]
        else [] }

end TabContext

/-! ## The tabs of a view -/

/-- Tabs write their strings for both sides. -/
def LanguageTable.setAll (table : LanguageTable) (strings : List (Text × Text)) : LanguageTable :=
  strings.foldl (fun table (key, text) => table.set .both key text) table

/-- What compiling the tabs of a view may change. -/
structure TabStore where
  registry : Registry
  language : LanguageTable

/-- Compiles the raw tabs of a view and stores them. Nothing changes when there are none. -/
def TabStore.compile (store : TabStore) (context : TabContext) (raws : List RawTab) :
    Except Failure TabStore :=
  if raws.isEmpty then .ok store
  else
    (RegistryPath.customTabs context.view).map fun path =>
      let compiled := raws.map context.compileTab
      { registry := store.registry.set path (CustomTab.listToJson (compiled.map (·.tab)))
        language := store.language.setAll (compiled.flatMap (·.strings)) }

end ViewBuilder
