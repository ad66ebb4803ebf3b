import FileRoutes.Page.MetaJson
import FileRoutes.Proofs.Page.LastWritten
import FileRoutes.Proofs.Record.Resolve
import FileRoutes.Route.Json

/-!
# Documents read back

Routes and metadata are read back from the documents they are written as. Members that are missing
stand for the values without which they were left out. Only a redirect and props that are `null` cannot
be told from missing ones, and the definition of a page is not written at all.

* `Json.exists_members`: the members of an object of fields.
* `Json.present?`: a value that can be told from a missing one.
* `Route.withoutNulls`, `PageMeta.withoutNulls`: what is left of a route, and of metadata.
* `Route.ofMembers?_fields`, `PageMeta.ofJson?_toJson`: one route, and metadata, read back.
* `documents_read_back`: both, with trees of routes at every depth.
-/

namespace FileRoutes

variable {name : String}

/-! ## Members -/

namespace Json

/-- A value that can be told from a missing one. -/
def present? : Json → Option Json
  | .null => none
  | value => some value

/-- Fields with distinct names, laid over a bag: a field that is missing leaves the bag as it is. -/
theorem get?_extendWith_fields (name : String) {fields : List (String × Option Json)}
    (distinct : (fields.map Prod.fst).Nodup) (base : Bag) :
    (base.extendWith (fields.filterMap fun field =>
      field.2.map fun value => (field.1, value))).get? name =
        (fields.lookup name).join.or (base.get? name) := by
  induction fields generalizing base with
  | nil => rfl
  | cons field rest ih =>
    obtain ⟨key, value⟩ := field
    obtain ⟨fresh, further⟩ := List.nodup_cons.1 distinct
    have absent : rest.lookup key = none := by
      refine List.lookup_eq_none_iff.2 fun other ho => bne_iff_ne.2 ?_
      rintro rfl
      exact fresh (List.mem_map.2 ⟨other, ho, rfl⟩)
    rw [Bag.lookup_cons_ite, List.filterMap_cons]
    cases value with
    | none =>
      refine (ih further base).trans ?_
      split
      · rename_i same
        rw [same, absent]
        rfl
      · rfl
    | some value =>
      refine (ih further (base.insert key value)).trans ?_
      rw [Bag.get?_insert]
      split
      · rename_i same
        rw [same, absent]
        rfl
      · rfl

/-- **The members of an object of fields** are the fields that are present. -/
theorem exists_members {document : Json} {fields : List (String × Option Json)}
    (written : document = ofFields fields) (distinct : (fields.map Prod.fst).Nodup) :
    ∃ members, document = .object members ∧
      ∀ name, members.lookup name = (fields.lookup name).join := by
  refine ⟨_, written, fun name => ?_⟩
  have members := get?_extendWith_fields name distinct .empty
  rw [Bag.get?_empty, Option.or_none] at members
  exact members

/-! ## Members read back -/

theorem texts?_ofStrings (texts : List String) : texts? (ofStrings texts) = some texts :=
  strings?_eq_some_iff.2 rfl

theorem bag?_toJson (bag : Bag) : bag? bag.toJson = some bag :=
  congrArg some bag.ofMembers_members

/-- A member that may be anything is missing if it is `null`. -/
theorem optional?_some (member : Option Json) : optional? some member = some (member.bind present?) := by
  cases member with
  | none => rfl
  | some value => cases value <;> rfl

theorem optional?_ofText? (text : Option String) : optional? text? (some (ofText? text)) = some text := by
  cases text <;> rfl

theorem optional?_text (text : Option String) : optional? text? (text.map .string) = some text := by
  cases text <;> rfl

theorem optional?_texts (texts : Option (List String)) :
    optional? texts? (texts.map ofStrings) = some texts := by
  cases texts with
  | none => rfl
  | some texts => exact congrArg (Option.map some) (texts?_ofStrings texts)

theorem withDefault?_unlessEmpty (texts : List String) :
    withDefault? [] texts? (unlessEmpty texts) = some texts := by
  cases texts with
  | nil => rfl
  | cons first rest => exact texts?_ofStrings (first :: rest)

theorem withDefault?_unlessEmptyBag (bag : Bag) :
    withDefault? .empty bag? (unlessEmptyBag bag) = some bag := by
  unfold unlessEmptyBag
  split
  · rename_i empty
    exact congrArg some (Bag.eq_empty empty).symm
  · exact bag?_toJson bag

end Json

/-! ## Metadata -/

namespace PageMeta

/-- What can be told of metadata by its document. -/
def withoutNulls (m : PageMeta) : PageMeta :=
  { m with
    props := m.props.bind Json.present?
    redirect := m.redirect.bind Json.present?
    definition := none }

/-- The names of keys are those of the keys. -/
theorem mapM_ofLabel?_label : ∀ keys : List MetaKey,
    (keys.map MetaKey.label).mapM MetaKey.ofLabel? = some keys
  | [] => rfl
  | key :: rest => by
    have first : MetaKey.ofLabel? key.label = some key := by cases key <;> rfl
    rw [List.map_cons, List.mapM_cons, first, mapM_ofLabel?_label rest]
    rfl

theorem ofList_toList (set : KeySet) : KeySet.ofList set.toList = set := by
  obtain ⟨name, path, props, aliases, redirect, bag⟩ := set
  revert name path props aliases redirect bag
  decide

theorem withDefault?_keySet (set : KeySet) :
    Json.withDefault? .empty keySet? (Json.unlessEmpty (set.toList.map MetaKey.label)) = some set := by
  cases hs : set.toList.map MetaKey.label with
  | nil =>
    have none : set.toList = [] := List.map_eq_nil_iff.1 hs
    rw [← ofList_toList set, none]
    rfl
  | cons first rest =>
    show keySet? (.ofStrings (first :: rest)) = some set
    unfold keySet?
    rw [Json.texts?_ofStrings, ← hs, Option.bind_some, mapM_ofLabel?_label, Option.map_some,
      ofList_toList]

/-- **Metadata is read back from its document.** -/
theorem ofJson?_toJson (m : PageMeta) : ofJson? m.toJson = some m.withoutNulls := by
  obtain ⟨members, object, found⟩ :=
    Json.exists_members (rfl : m.toJson = .ofFields _) (by simp)
  have name : members.lookup "name" = m.name.map .string := found "name"
  have path : members.lookup "path" = m.path.map .string := found "path"
  have props : members.lookup "props" = m.props := found "props"
  have aliases : members.lookup "alias" = m.aliases.map .ofStrings := found "alias"
  have redirect : members.lookup "redirect" = m.redirect := found "redirect"
  have bag : members.lookup "meta" = Json.unlessEmptyBag m.bag := found "meta"
  have dynamic : members.lookup "dynamic_keys" =
      Json.unlessEmpty (m.dynamic.toList.map MetaKey.label) := found "dynamic_keys"
  rw [object]
  simp only [ofJson?, name, path, props, aliases, redirect, bag, dynamic, Json.optional?_text,
    Json.optional?_some, Json.optional?_texts, Json.withDefault?_unlessEmptyBag, withDefault?_keySet]
  rfl

end PageMeta

/-! ## Routes -/

/-- What can be told of a route by its document. -/
def Route.withoutNulls (route : Route) : Route :=
  { route with
    redirect := route.redirect.bind Json.present?
    props := route.props.bind Json.present? }

/-- **One route is read back** from the members of its document, whatever other members there are. -/
theorem Route.ofMembers?_fields {members : List (String × Json)} {others : List (String × Option Json)}
    (route : Route) (found : ∀ name, members.lookup name = ((route.fields ++ others).lookup name).join) :
    Route.ofMembers? members = some route.withoutNulls := by
  have name : members.lookup "name" = some (.ofText? route.name) := found "name"
  have path : members.lookup "path" = some (.string route.path) := found "path"
  have file : members.lookup "file" = some (.ofText? (route.file.map FilePath.text)) := found "file"
  have mode : members.lookup "mode" = some (.string route.mode.label) := found "mode"
  have bag : members.lookup "meta" = Json.unlessEmptyBag route.bag := found "meta"
  have aliases : members.lookup "alias" = Json.unlessEmpty route.aliases := found "alias"
  have redirect : members.lookup "redirect" = route.redirect := found "redirect"
  have props : members.lookup "props" = route.props := found "props"
  have text (text : String) : (Json.string text).text? = some text := rfl
  have spelled : (route.file.map FilePath.text).map FilePath.mk = route.file := by
    cases route.file <;> rfl
  simp only [ofMembers?, name, path, file, mode, bag, aliases, redirect, props,
    Json.optional?_ofText?, Json.optional?_some, Json.withDefault?_unlessEmpty,
    Json.withDefault?_unlessEmptyBag, text, Mode.ofLabel?_label, Option.bind_eq_bind,
    Option.bind_some, Option.pure_def, spelled]
  rfl

/-- The children are found by the name of their member. -/
theorem Forest.childrenOfMembers?_eq {items : List Json} :
    ∀ {members : List (String × Json)}, members.lookup "children" = some (.array items) →
      Forest.childrenOfMembers? members = Forest.routesOfJson? items
  | (key, value) :: rest, h => by
    rw [Bag.lookup_cons_ite] at h
    by_cases same : "children" = key
    · rw [if_pos same] at h
      obtain rfl := Option.some.inj h
      rw [Forest.childrenOfMembers?, if_pos same.symm]
    · rw [if_neg same] at h
      have ih := Forest.childrenOfMembers?_eq h
      cases value with
      | array others => rw [Forest.childrenOfMembers?, if_neg (Ne.symm same), ih]
      | _ => simp only [Forest.childrenOfMembers?, Ne.symm same, if_false, ih]

mutual

/-- A tree of routes is read back from its document. -/
theorem Tree.routeOfJson?_routeToJson :
    ∀ t : Tree Route, Tree.routeOfJson? t.routeToJson = some (t.map Route.withoutNulls)
  | .node route children => by
    obtain ⟨members, object, found⟩ :=
      Json.exists_members (rfl : (Tree.node route children).routeToJson = .ofFields _)
        (by simp [Route.fields])
    have below : members.lookup "children" = some (.array (Forest.routesToJson children)) :=
      found "children"
    rw [object, Tree.routeOfJson?, route.ofMembers?_fields found, Forest.childrenOfMembers?_eq below,
      Forest.routesOfJson?_routesToJson children, Tree.map]

/-- A forest of routes is read back from its documents. -/
theorem Forest.routesOfJson?_routesToJson :
    ∀ ts : Forest Route,
      Forest.routesOfJson? (Forest.routesToJson ts) = some (Forest.map Route.withoutNulls ts)
  | [] => rfl
  | t :: ts => by
    rw [Forest.routesToJson, Forest.routesOfJson?, Tree.routeOfJson?_routeToJson t,
      Forest.routesOfJson?_routesToJson ts, Forest.map]

end

/-! ## Both documents -/

/-- **Documents are read back.** The document of a tree of routes, however deep, is readable, and what
is read is the tree, except that at every depth a redirect and props that are `null` are missing. The
document of metadata is readable, and what is read is the metadata, except that a redirect and props
that are `null` are missing, and so is the definition. -/
theorem documents_read_back :
    (∀ t : Tree Route, Tree.routeOfJson? t.routeToJson = some (t.map Route.withoutNulls)) ∧
      ∀ m : PageMeta, PageMeta.ofJson? m.toJson = some m.withoutNulls :=
  ⟨Tree.routeOfJson?_routeToJson, PageMeta.ofJson?_toJson⟩

end FileRoutes
