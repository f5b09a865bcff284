import Recordgen.Linking.Binding
import Recordgen.Proofs.Traversal

/-! # Sites and bindings

The sites of a specification are the positions of the arena that hold a name (`mem_linkSites`), and
no two of them share a slot (`slots_nodup`). Binding never replaces a binding, therefore: it resolves
the sites one by one (`bindSites_eq`) and keeps what each of them denotes (`lookup_of_bindSites`).
-/

namespace Recordgen

/-- The items of an argument: the argument itself, or the members of a collection. -/
def Argument.items {phase : Phase} : Argument phase → List (Argument phase)
  | .collection items => items
  | argument => [argument]

/-- The items of all arguments of a component. -/
def Component.items {phase : Phase} (component : Component phase) : List (Argument phase) :=
  component.arguments.flatMap fun argument => argument.2.items

/-- What the link that an argument holds denotes. -/
def Argument.linkKind? {phase : Phase} : Argument phase → Option LinkKind
  | .fieldRef _ => some .field
  | .referenceRef _ => some .reference
  | .functionRef _ => some .function
  | _ => none

/-- How many positions of the arena hold a link of the given kind. -/
def Specification.countLinks {phase : Phase} (spec : Specification phase) (kind : LinkKind) : Nat :=
  (spec.components.toList.flatMap Component.items).countP fun item => item.linkKind? == some kind

namespace Linking

variable {spec : Specification .raw} {component : Component .raw} {site : LinkSite}

private theorem map_positions (argument : Argument .raw) :
    (positions argument).map Prod.snd = argument.items := by
  cases argument with
  | collection items =>
      rw [positions, List.map_map, Argument.items]
      exact List.zipIdx_map_fst 0 items
  | literal | fieldRef | referenceRef | functionRef | component => rfl

private theorem positions_nodup (argument : Argument .raw) :
    ((positions argument).map Prod.fst).Nodup := by
  cases argument with
  | collection items =>
      have numbers : (items.zipIdx.map Prod.snd).Nodup := by
        rw [List.zipIdx_map_snd]
        exact List.nodup_range'
      rw [positions, List.map_map]
      have marked := numbers.map fun _ _ => Option.some.inj
      rwa [List.map_map] at marked
  | literal | fieldRef | referenceRef | functionRef | component => exact List.nodup_singleton _

/-- The site of a name, in the component that holds it. -/
def siteAt (spec : Specification .raw) (component : Component .raw) (entry : Nat)
    (position : Option Nat) (kind : LinkKind) (name : String) : LinkSite :=
  { kind := kind
    slot := ⟨component.id, entry, position⟩
    name := name
    owner := component.owner
    place := placeOf spec component }

private theorem mem_componentSites (located : spec.component component.id = component) :
    site ∈ componentSites spec component.id ↔
      ∃ entry key argument position item kind name,
        component.arguments[entry]? = some (key, argument) ∧
        (position, item) ∈ positions argument ∧ linkName? item = some (kind, name) ∧
        site = siteAt spec component entry position kind name := by
  rw [componentSites, located]
  simp only [List.mem_flatMap, List.mem_filterMap, Option.map_eq_some_iff, Prod.exists,
    List.mem_zipIdx_iff_getElem?]
  constructor
  · rintro ⟨key, argument, entry, present, position, item, listed, kind, name, named, rfl⟩
    exact ⟨entry, key, argument, position, item, kind, name, present, listed, named, rfl⟩
  · rintro ⟨entry, key, argument, position, item, kind, name, present, listed, named, rfl⟩
    exact ⟨key, argument, entry, present, position, item, listed, kind, name, named, rfl⟩

private theorem componentSites_slots_nodup (spec : Specification .raw) (id : ComponentId) :
    ((componentSites spec id).map LinkSite.slot).Nodup := by
  rw [componentSites, List.map_flatMap]
  refine nodup_flatMap_of_tag Prod.snd Slot.entry ?_ ?_ ?_
  · rw [List.zipIdx_map_snd]
    exact List.nodup_range'
  · rintro ⟨argument, entry⟩ -
    refine List.Nodup.of_map Slot.position ?_
    rw [List.map_map]
    refine (positions_nodup argument.2).sublist (filterMap_map_sublist ?_)
    rintro ⟨position, item⟩ site found
    obtain ⟨_, -, rfl⟩ := Option.map_eq_some_iff.mp found
    rfl
  · rintro ⟨argument, entry⟩ - slot member
    obtain ⟨site, listed, rfl⟩ := List.mem_map.mp member
    obtain ⟨⟨position, item⟩, -, found⟩ := List.mem_filterMap.mp listed
    obtain ⟨_, -, rfl⟩ := Option.map_eq_some_iff.mp found
    rfl

private theorem component_of_mem_componentSites {id : ComponentId}
    (member : site ∈ componentSites spec id) : site.slot.component = id := by
  obtain ⟨⟨argument, entry⟩, -, listed⟩ := List.mem_flatMap.mp member
  obtain ⟨⟨position, item⟩, -, found⟩ := List.mem_filterMap.mp listed
  obtain ⟨_, -, rfl⟩ := Option.map_eq_some_iff.mp found
  rfl

/-- The sites of a specification are those of the components in its arena. -/
theorem linkSites_perm (wellFormed : spec.WellFormed) :
    (linkSites spec).Perm
      (spec.components.toList.flatMap fun component => componentSites spec component.id) := by
  have entered := wellFormed.entered_perm.flatMap_right (componentSites spec)
  rwa [List.flatMap_map] at entered

/-- **No two sites share a slot.** -/
theorem slots_nodup (wellFormed : spec.WellFormed) :
    ((linkSites spec).map LinkSite.slot).Nodup := by
  rw [((linkSites_perm wellFormed).map LinkSite.slot).nodup_iff, List.map_flatMap]
  refine nodup_flatMap_of_tag Component.id Slot.component wellFormed.ids_nodup ?_ ?_
  · exact fun component _ => componentSites_slots_nodup spec component.id
  · intro component _ slot member
    obtain ⟨site, listed, rfl⟩ := List.mem_map.mp member
    exact component_of_mem_componentSites listed

/-- The sites of a specification are the names that the items of its arguments hold. -/
theorem mem_linkSites (wellFormed : spec.WellFormed) :
    site ∈ linkSites spec ↔ ∃ component ∈ spec.components.toList,
      ∃ entry key argument position item kind name,
        component.arguments[entry]? = some (key, argument) ∧
        (position, item) ∈ positions argument ∧ linkName? item = some (kind, name) ∧
        site = siteAt spec component entry position kind name := by
  rw [(linkSites_perm wellFormed).mem_iff, List.mem_flatMap]
  refine exists_congr fun component => and_congr_right fun member => ?_
  exact mem_componentSites (wellFormed.component_id member)

/-- The sites of a specification whose names should denote something of the given kind. -/
def sitesOf (spec : Specification .raw) (kind : LinkKind) : List LinkSite :=
  (linkSites spec).filter fun site => site.kind == kind

/-- No two sites of one sort have the same slot. -/
theorem sitesOf_slots_nodup (wellFormed : spec.WellFormed) (kind : LinkKind) :
    ((sitesOf spec kind).map LinkSite.slot).Nodup :=
  (slots_nodup wellFormed).sublist (List.filter_sublist.map _)

/-- Some site of a kind is bad exactly when some name of that kind in the arena is. -/
theorem exists_mem_sitesOf (wellFormed : spec.WellFormed) (kind : LinkKind)
    (bad : String → Option SequenceId → String → Prop) :
    (∃ site ∈ sitesOf spec kind, bad site.name site.owner site.place) ↔
      ∃ component ∈ spec.components.toList, ∃ item ∈ component.items, ∃ name,
        linkName? item = some (kind, name) ∧
          bad name component.owner (placeOf spec component) := by
  constructor
  · rintro ⟨site, member, fails⟩
    obtain ⟨listed, sort⟩ := List.mem_filter.mp member
    obtain ⟨component, present, entry, key, argument, position, item, _, name, held, placed,
      named, rfl⟩ := (mem_linkSites wellFormed).mp listed
    obtain rfl := beq_iff_eq.mp sort
    refine ⟨component, present, item, ?_, name, named, fails⟩
    refine List.mem_flatMap.mpr ⟨(key, argument), List.mem_of_getElem? held, ?_⟩
    rw [← map_positions]
    exact List.mem_map.mpr ⟨(position, item), placed, rfl⟩
  · rintro ⟨component, present, item, held, name, named, fails⟩
    obtain ⟨⟨key, argument⟩, listed, inside⟩ := List.mem_flatMap.mp held
    obtain ⟨entry, below, here⟩ := List.getElem_of_mem listed
    rw [← map_positions] at inside
    obtain ⟨⟨position, _⟩, placed, rfl⟩ := List.mem_map.mp inside
    refine ⟨siteAt spec component entry position kind name, List.mem_filter.mpr ⟨?_, ?_⟩, fails⟩
    · exact (mem_linkSites wellFormed).mpr ⟨component, present, entry, key, argument, position, _,
        kind, name, List.getElem?_eq_some_iff.mpr ⟨below, here⟩, placed, named, rfl⟩
    · exact beq_self_eq_true kind

private theorem linkKind?_eq (item : Argument .raw) :
    item.linkKind? = (linkName? item).map Prod.fst := by
  cases item <;> rfl

private theorem map_kind_positions (argument : Argument .raw)
    {site : Option Nat → LinkKind × String → LinkSite}
    (kinds : ∀ position link, (site position link).kind = link.1) :
    ((positions argument).filterMap fun place =>
      (linkName? place.2).map (site place.1)).map LinkSite.kind =
        argument.items.filterMap Argument.linkKind? := by
  rw [← map_positions, List.filterMap_map, List.map_filterMap]
  refine List.filterMap_congr fun place _ => ?_
  rw [Function.comp_apply, linkKind?_eq, Option.map_map]
  exact congrFun (congrArg Option.map (funext (kinds place.1))) _

private theorem map_kind_componentSites (located : spec.component component.id = component) :
    (componentSites spec component.id).map LinkSite.kind =
      component.items.filterMap Argument.linkKind? := by
  rw [componentSites, located, List.map_flatMap]
  have first : component.arguments = component.arguments.zipIdx.map Prod.fst :=
    (List.zipIdx_map_fst 0 _).symm
  rw [Component.items, List.filterMap_flatMap]
  conv => rhs; rw [first, List.flatMap_map]
  refine List.flatMap_congr fun place _ => ?_
  have kinds : ∀ (position : Option Nat) (link : LinkKind × String),
      (siteAt spec component place.2 position link.1 link.2).kind = link.1 := fun _ _ => rfl
  exact map_kind_positions place.1.2 kinds

/-- There is one site for each link of the arena. -/
theorem length_sitesOf (wellFormed : spec.WellFormed) (kind : LinkKind) :
    (sitesOf spec kind).length = spec.countLinks kind := by
  have kinds : ((linkSites spec).map LinkSite.kind).Perm
      ((spec.components.toList.flatMap Component.items).filterMap Argument.linkKind?) := by
    refine ((linkSites_perm wellFormed).map LinkSite.kind).trans (List.Perm.of_eq ?_)
    rw [List.map_flatMap, List.filterMap_flatMap]
    exact List.flatMap_congr fun component member =>
      map_kind_componentSites (wellFormed.component_id member)
  have counted := kinds.countP_eq fun other => other == kind
  rw [List.countP_map, List.countP_filterMap] at counted
  rw [sitesOf, ← List.countP_eq_length_filter, Specification.countLinks]
  refine counted.trans (List.countP_congr fun item _ => ?_)
  cases item.linkKind? <;> simp

section Bindings

variable {α : Type} {resolve : LinkSite → Except CompileError α} {sites : List LinkSite}

private theorem bindSlot_of_fresh {slot : Slot} {link : α} (fresh : slot ∉ bindings.map Prod.fst) :
    bindSlot slot link bindings = bindings ++ [(slot, link)] := by
  induction bindings with
  | nil => rfl
  | cons binding bindings ih =>
      rw [List.map_cons, List.mem_cons, not_or] at fresh
      rw [bindSlot, if_neg (Ne.symm fresh.1), ih fresh.2, List.cons_append]

/-- A site with what its name denotes. -/
def bindSite (resolve : LinkSite → Except CompileError α) (site : LinkSite) :
    Except CompileError (Slot × α) :=
  (fun link => (site.slot, link)) <$> resolve site

/-- Among distinct slots, nothing is bound twice. -/
theorem bindSites_eq (distinct : (sites.map LinkSite.slot).Nodup) :
    bindSites resolve sites = sites.mapM (bindSite resolve) := by
  -- The bindings made so far stay in front.
  have behind : ∀ before : List (Slot × α),
      (∀ slot ∈ before.map Prod.fst, slot ∉ sites.map LinkSite.slot) →
      sites.foldlM (fun bindings site => do
        return bindSlot site.slot (← resolve site) bindings) before =
          (fun bindings => before ++ bindings) <$> sites.mapM (bindSite resolve) := by
    induction sites with
    | nil =>
        intro before _
        rw [List.mapM_nil]
        exact congrArg Except.ok (List.append_nil before).symm
    | cons site sites ih =>
        intro before apart
        rw [List.map_cons, List.nodup_cons] at distinct
        have fresh : site.slot ∉ before.map Prod.fst :=
          fun used => apart _ used List.mem_cons_self
        rw [List.foldlM_cons, List.mapM_cons]
        cases found : resolve site with
        | error fault =>
            rw [bindSite, found]
            rfl
        | ok link =>
            have here : bindSite resolve site = .ok (site.slot, link) := by
              rw [bindSite, found]
              rfl
            have rest := ih distinct.2 (before ++ [(site.slot, link)]) (by
              intro slot used later
              rw [List.map_append, List.mem_append] at used
              rcases used with used | used
              · exact apart slot used (List.mem_cons_of_mem _ later)
              · obtain rfl := List.mem_singleton.mp used
                exact distinct.1 later)
            rw [here]
            change sites.foldlM _ (bindSlot site.slot link before) = _
            rw [bindSlot_of_fresh fresh, rest]
            cases sites.mapM (bindSite resolve) with
            | error fault => rfl
            | ok bindings => exact congrArg Except.ok (List.append_assoc _ _ _)
  have whole := behind [] (by simp)
  rw [bindSites, whole]
  cases sites.mapM (bindSite resolve) <;> rfl

/-- Binding fails exactly if a site cannot be resolved. -/
theorem bindSites_fails {failing : LinkSite → Prop} {errors : CompileError → Prop}
    (distinct : (sites.map LinkSite.slot).Nodup)
    (each : ∀ site ∈ sites, Outcome.FailsExactly (failing site) errors (resolve site)) :
    Outcome.FailsExactly (∃ site ∈ sites, failing site) errors (bindSites resolve sites) := by
  rw [bindSites_eq distinct]
  exact Outcome.FailsExactly.mapM fun site member => (each site member).map

variable {bindings : List (Slot × α)}

/-- The bindings stand in the order of the sites, each under the slot of its site. -/
theorem forall₂_of_bindSites (distinct : (sites.map LinkSite.slot).Nodup)
    (bound : bindSites resolve sites = .ok bindings) :
    List.Forall₂ (fun site binding => binding.1 = site.slot ∧ resolve site = .ok binding.2)
      sites bindings := by
  rw [bindSites_eq distinct, Outcome.mapM_eq_ok_iff] at bound
  refine bound.imp fun site binding found => ?_
  obtain ⟨link, resolved, rfl⟩ := Outcome.map_eq_ok_iff.mp found
  exact ⟨rfl, resolved⟩

/-- A site is bound to what its name denotes. -/
theorem lookup_of_bindSites (distinct : (sites.map LinkSite.slot).Nodup)
    (bound : bindSites resolve sites = .ok bindings) {site : LinkSite} (member : site ∈ sites) :
    ∃ link, resolve site = .ok link ∧ bindings.lookup site.slot = some link := by
  have each := forall₂_of_bindSites distinct bound
  have keys : bindings.map Prod.fst = sites.map LinkSite.slot := by
    rw [← List.forall₂_eq_eq_eq, List.forall₂_map_left_iff, List.forall₂_map_right_iff]
    exact (each.imp fun _ _ related => related.1).flip
  obtain ⟨⟨slot, link⟩, listed, rfl, resolved⟩ := exists_right_of_mem each member
  exact ⟨link, resolved, lookup_eq_some_of_mem (keys ▸ distinct) listed⟩

end Bindings

end Linking

end Recordgen
