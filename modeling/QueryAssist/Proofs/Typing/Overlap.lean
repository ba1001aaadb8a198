import Mathlib.Data.List.Nodup
import QueryAssist.Proofs.Open.Spreading
import QueryAssist.Proofs.Typing.TypeCondition
import QueryAssist.Sdl.Build

/-! # Type conditions and spreads agree

The types that a fragment can be on are collected from the possible types of what is selected from;
whether a fragment can be spread is found by comparing two types. Both are to come to the same:
what is suggested for the type of a fragment can be spread, and an object or an interface on which a
fragment can be spread is suggested. Main definitions:

* **`Schema.StandsForObjects`** — a type that stands for objects, which implement interfaces only.
* **`Candidates.conditionNames`** — the names of the types that are collected.

Main statements: `Schema.overlap_of_mem_possibleTypes` and `Schema.overlap_of_mem_interfaces`, on
what is collected, `Schema.mem_possibleTypes_of_overlap`, on what is compared, and
`typeConditions_agree`. -/

namespace QueryAssist

/-- Without its duplicates a list has **none**. -/
theorem nodup_eraseDups {α : Type} [BEq α] [LawfulBEq α] : ∀ as : List α, as.eraseDups.Nodup
  | [] => .nil
  | a :: as => by
    rw [List.eraseDups_cons, List.nodup_cons, List.mem_eraseDups, List.mem_filter]
    exact ⟨fun h => by simp at h, nodup_eraseDups _⟩
termination_by as => as.length
decreasing_by exact Nat.lt_succ_of_le (List.length_filter_le _ _)

namespace Schema

variable {s : Schema} {p t u : TypeDef} {n m : String}

/-- A type **stands for objects** if its possible types are objects, and these implement interfaces
only. The possible types of an interface are objects anyway. The language demands both of every
schema, but reading one does not check it. -/
structure StandsForObjects (s : Schema) (p : TypeDef) : Prop where
  objects : p.kind = .union → ∀ n ∈ s.possibleTypes p, ∀ t ∈ s.type? n, t.kind = .object
  interfaces : ∀ n ∈ s.possibleTypes p, ∀ t ∈ s.type? n, ∀ m ∈ t.body.interfaces, ∀ u ∈ s.type? m,
    u.kind = .interface

instance (s : Schema) (p : TypeDef) : Decidable (s.StandsForObjects p) :=
  decidable_of_iff
    ((p.kind = .union → ∀ n ∈ s.possibleTypes p, ∀ t ∈ s.type? n, t.kind = .object) ∧
      ∀ n ∈ s.possibleTypes p, ∀ t ∈ s.type? n, ∀ m ∈ t.body.interfaces, ∀ u ∈ s.type? m,
        u.kind = .interface)
    ⟨fun ⟨ho, hi⟩ => ⟨ho, hi⟩, fun h => ⟨h.objects, h.interfaces⟩⟩

/-! ### One type to a name -/

/-- What is reached from a type is not reached **twice**. -/
theorem nodup_reach (lookup : String → Option TypeDef) (waiting : List String) (depth : Nat)
    {seen : List String} (h : seen.Nodup) (name : String) :
    (reach lookup waiting depth seen name).Nodup := by
  induction depth generalizing seen name with
  | zero => exact h
  | succ depth ih =>
    rw [reach]
    split
    · exact h
    · next hnot =>
      split
      · exact h
      · have hseen : name ∉ seen := by
          rw [Bool.or_eq_true, not_or, List.contains_iff_mem] at hnot
          exact hnot.1
        have hconcat : (seen ++ [name]).Nodup := List.nodup_append_comm.1 (h.cons hseen)
        exact List.foldlRecOn _ _ hconcat fun _ hb m _ => ih hb m

/-- No type comes twice in the order that a schema has them in. -/
theorem nodup_typeOrder (lookup : String → Option TypeDef) (more : List String)
    {seen : List String} (h : seen.Nodup) (waiting : List String) :
    (typeOrder lookup more seen waiting).Nodup := by
  induction waiting generalizing seen with
  | nil => exact List.foldlRecOn _ _ h fun _ hb m _ => nodup_reach lookup [] reachDepth hb m
  | cons name waiting ih => exact ih (nodup_reach lookup waiting reachDepth h name)

/-- The names of what is found by some names are **those that are found**. -/
theorem map_name_filterMap {lookup : String → Option TypeDef}
    (h : ∀ n t, lookup n = some t → t.name = n) (ns : List String) :
    (ns.filterMap lookup).map (·.name) = ns.filter fun n => (lookup n).isSome := by
  induction ns with
  | nil => rfl
  | cons n ns ih =>
    cases ht : lookup n with
    | none => simpa [ht] using ih
    | some t => simpa [ht, h n t ht] using ih

/-- **No two types of an assembled schema have the same name.** -/
theorem nodup_names_assemble (query mutation subscription : Option String) (types : List TypeDef)
    (directives : List Directive) :
    ((assemble query mutation subscription types directives).types.map (·.name)).Nodup := by
  have hfind : ∀ (ts : List TypeDef) (n : String) (t : TypeDef),
      ts.find? (·.name == n) = some t → t.name = n := by
    intro ts n t ht
    simpa using List.find?_some ht
  rw [assemble, map_name_filterMap]
  · exact (nodup_typeOrder _ _ .nil _).filter _
  · intro n t ht
    obtain ht | ⟨-, ht⟩ := Option.or_eq_some_iff.1 ht
    · exact hfind _ n t ht
    · exact hfind _ n t ht

/-! ### What a type stands for -/

/-- The types of a kind that implement an interface. -/
theorem mem_implementations {k : TypeKind} :
    n ∈ s.implementations k m ↔
      ∃ t ∈ s.types, t.kind = k ∧ m ∈ t.body.interfaces ∧ t.name = n := by
  simp only [implementations, List.mem_flatMap]
  refine exists_congr fun t => and_congr_right fun _ => ?_
  by_cases hk : t.kind = k
  · simpa [hk] using fun _ => eq_comm
  · simp [hk]

/-- Of two types of a schema with the same name one is the other. -/
theorem eq_of_name_eq (hn : (s.types.map (·.name)).Nodup) (ht : t ∈ s.types)
    (hu : s.type? u.name = some u) (hname : t.name = u.name) : t = u :=
  List.inj_on_of_nodup_map hn ht (mem_types_of_type? hu) hname

/-- What a composite type stands for are **objects**. -/
theorem StandsForObjects.kind_eq (h : s.StandsForObjects p) (hn : (s.types.map (·.name)).Nodup)
    (hm : n ∈ s.possibleTypes p) (ht : s.type? n = some t) : t.kind = .object := by
  by_cases hp : p.kind = .union
  · exact h.objects hp n hm t ht
  · unfold possibleTypes at hm
    split at hm
    · next hb => exact absurd (congrArg TypeBody.kind hb) hp
    · obtain ⟨u, hu, hk, -, rfl⟩ := mem_implementations.1 hm
      have hname := name_of_type? ht
      rw [← hname] at ht
      exact eq_of_name_eq hn hu ht hname.symm ▸ hk
    · cases hm

/-! ### What overlaps -/

/-- An abstract type overlaps an object that is **one of its subtypes**. -/
theorem overlap_object (hp : p.isAbstract = true) (ht : t.kind = .object) :
    s.overlap p t = (p.name == t.name || s.isSubtype p t.name) := by
  have hobject : t.isAbstract = false := by simp [TypeDef.isAbstract, ht]
  cases hname : p.name == t.name <;> simp [overlap, hname, hp, hobject]

/-- It overlaps an interface if **one of its possible types** is a subtype of that. -/
theorem overlap_interface (hp : p.isAbstract = true) (hu : u.kind = .interface) :
    s.overlap p u = (p.name == u.name || (s.possibleTypes p).any (s.isSubtype u ·)) := by
  have habstract : u.isAbstract = true := by simp [TypeDef.isAbstract, hu]
  cases hname : p.name == u.name <;> simp [overlap, hname, hp, habstract]

/-- What implements an interface is a **subtype** of it. -/
theorem isSubtype_interface (hu : u.kind = .interface) :
    s.isSubtype u n = true ↔
      n ∈ s.implementations .object u.name ∨ n ∈ s.implementations .interface u.name := by
  unfold TypeDef.kind at hu
  unfold isSubtype
  cases hb : u.body with
  | interface is fs => simp
  | _ => simp [hb, TypeBody.kind] at hu

/-- Possible types are subtypes. -/
theorem isSubtype_of_mem_possibleTypes (hm : n ∈ s.possibleTypes p) :
    s.isSubtype p n = true := by
  unfold possibleTypes at hm
  unfold isSubtype
  split at hm
  · simpa using hm
  · simp [hm]
  · cases hm

/-- An abstract type **overlaps the objects** that it stands for. -/
theorem overlap_of_mem_possibleTypes (hp : p.isAbstract = true) (ht : t.kind = .object)
    (hm : t.name ∈ s.possibleTypes p) : s.overlap p t = true := by
  rw [overlap_object hp ht, isSubtype_of_mem_possibleTypes hm, Bool.or_true]

/-- It **overlaps the interfaces** that one of these implements. -/
theorem overlap_of_mem_interfaces (hp : p.isAbstract = true) (ht : t.kind = .object)
    (hs : t ∈ s.types) (hm : t.name ∈ s.possibleTypes p) (hu : u.kind = .interface)
    (hi : u.name ∈ t.body.interfaces) : s.overlap p u = true := by
  have hmem : t.name ∈ s.implementations .object u.name :=
    mem_implementations.2 ⟨t, hs, ht, hi, rfl⟩
  have hsub : s.isSubtype u t.name = true := (isSubtype_interface hu).2 (.inl hmem)
  rw [overlap_interface hp hu, List.any_eq_true.2 ⟨t.name, hm, hsub⟩, Bool.or_true]

/-- An object that overlaps an abstract type is **one that it stands for**. -/
theorem mem_possibleTypes_of_overlap (hn : (s.types.map (·.name)).Nodup)
    (hp : s.type? p.name = some p) (habstract : p.isAbstract = true)
    (ht : s.type? t.name = some t) (hk : t.kind = .object) (h : s.overlap p t = true) :
    t.name ∈ s.possibleTypes p := by
  rw [overlap_object habstract hk, Bool.or_eq_true, beq_iff_eq] at h
  obtain hname | hsub := h
  · obtain rfl := eq_of_name_eq hn (mem_types_of_type? hp) ht hname
    simp [TypeDef.isAbstract, hk] at habstract
  unfold isSubtype at hsub
  unfold possibleTypes
  split at hsub
  · simpa using hsub
  · rw [List.contains_iff_mem, List.mem_append] at hsub
    refine hsub.resolve_right fun hm => ?_
    -- An interface of that name would be the object.
    obtain ⟨u, hu, hku, -, hname⟩ := mem_implementations.1 hm
    obtain rfl := eq_of_name_eq hn hu ht hname
    rw [hk] at hku
    cases hku
  · cases hsub

end Schema

namespace Candidates

variable {s : Schema} {p : TypeDef}

/-! ### What is collected -/

/-- The names of the types that a fragment in a selection from an abstract type can be on. -/
def conditionNames (s : Schema) (p : TypeDef) : List String :=
  let possible := (s.possibleTypes p).filterMap s.type?
  (possible.map (·.name) ++ possible.flatMap fun t => t.body.interfaces).eraseDups

/-- The names are those of the possible types and of the interfaces that these implement. -/
theorem mem_conditionNames {n : String} :
    n ∈ conditionNames s p ↔
      ∃ m ∈ s.possibleTypes p, ∃ t, s.type? m = some t ∧ (t.name = n ∨ n ∈ t.body.interfaces) := by
  rw [conditionNames, List.mem_eraseDups, List.mem_append, List.mem_map, List.mem_flatMap]
  constructor
  · rintro (⟨t, ht, rfl⟩ | ⟨t, ht, hn⟩) <;> obtain ⟨m, hm, ht⟩ := List.mem_filterMap.1 ht
    · exact ⟨m, hm, t, ht, .inl rfl⟩
    · exact ⟨m, hm, t, ht, .inr hn⟩
  · rintro ⟨m, hm, t, ht, hn⟩
    have hmem := List.mem_filterMap.2 ⟨m, hm, ht⟩
    exact hn.imp (fun hn => ⟨t, hmem, hn⟩) fun hn => ⟨t, hmem, hn⟩

/-- The type conditions are named after the types that a fragment can be on. -/
theorem text_typeConditions {parent : Option TypeDef} {ts : List TypeDef}
    (h : conditionTypes s parent = .ok ts) :
    ∃ ss, typeConditions s parent = .ok ss ∧ ss.map (·.text) = ts.map (·.name) := by
  refine ⟨_, by rw [typeConditions, h, Except.map], ?_⟩
  rw [List.map_map]
  rfl

/-- **In a selection from an abstract type** the type conditions are the objects that it stands for
and the interfaces that these implement, each once. -/
theorem typeConditions_of_isAbstract (hp : p.isAbstract = true)
    (hobjects : ∀ n ∈ s.possibleTypes p, ∀ t ∈ s.type? n, t.kind = .object) :
    ∃ ss, typeConditions s (some p) = .ok ss ∧
      ss.map (·.text) = (conditionNames s p).filter fun n => (s.type? n).isSome := by
  have hall : ((s.possibleTypes p).filterMap s.type?).all TypeDef.hasFields = true := by
    rw [List.all_eq_true]
    intro t ht
    obtain ⟨n, hn, ht⟩ := List.mem_filterMap.1 ht
    simp [TypeDef.hasFields, hobjects n hn t ht]
  have htypes : conditionTypes s (some p) = .ok ((conditionNames s p).filterMap s.type?) := by
    rw [conditionTypes, if_pos hp, if_pos hall]
    rfl
  obtain ⟨ss, hss, htext⟩ := text_typeConditions htypes
  exact ⟨ss, hss, htext.trans (Schema.map_name_filterMap (fun _ _ => Schema.name_of_type?) _)⟩

/-! ### What can be spread -/

/-- A spread tells both the name and the type of its fragment. -/
theorem asSpread_injective : Function.Injective FragmentHead.asSpread := by
  rintro ⟨name, type⟩ ⟨name', type'⟩ h
  simp only [FragmentHead.asSpread, Suggestion.mk.injEq, Option.some.injEq,
    TypeRef.named.injEq] at h
  rw [h.1, h.2.1]

/-- A fragment is **kept** if it is on a type that can be spread, and not the one around the
place. -/
theorem asSpread_mem_spreads_iff {parent : Option TypeDef} {ls : List Link}
    {hs : List FragmentHead} {h : FragmentHead} :
    h.asSpread ∈ spreads s parent ls hs ↔ h ∈ hs ∧ enclosingFragment? ls ≠ some h.name ∧
      (s.type? h.type).any (canSpread s parent) = true := by
  rw [spreads_eq, List.mem_map_of_injective asSpread_injective, List.mem_filter, Bool.and_eq_true,
    all_bne_iff]

/-- On every type that is collected a fragment **can be spread**. -/
theorem canSpread_of_mem_conditionNames (hn : (s.types.map (·.name)).Nodup)
    (hobjects : s.StandsForObjects p) (hp : p.isAbstract = true) {n : String}
    (hmem : n ∈ conditionNames s p) {t : TypeDef} (ht : s.type? n = some t) :
    canSpread s (some p) t = true := by
  obtain ⟨m, hm, u, hu, hmn⟩ := mem_conditionNames.1 hmem
  have hobject : u.kind = .object := hobjects.kind_eq hn hm hu
  obtain rfl : u.name = m := Schema.name_of_type? hu
  obtain ⟨hcomposite, hoverlap⟩ : t.isComposite = true ∧ s.overlap p t = true := by
    rcases hmn with rfl | hmn
    · obtain rfl : u = t := Option.some.inj (hu.symm.trans ht)
      exact ⟨by simp [TypeDef.isComposite, hobject],
        Schema.overlap_of_mem_possibleTypes hp hobject hm⟩
    · have hinterface : t.kind = .interface := hobjects.interfaces u.name hm u hu n hmn t ht
      obtain rfl : t.name = n := Schema.name_of_type? ht
      exact ⟨TypeDef.isComposite_of_interface hinterface, Schema.overlap_of_mem_interfaces hp
        hobject (Schema.mem_types_of_type? hu) hm hinterface hmn⟩
  simp [canSpread, TypeDef.isComposite_of_isAbstract hp, hcomposite, hoverlap]

/-- An object on which a fragment can be spread is **collected**, and an interface that a possible
type implements. -/
theorem mem_conditionNames_of_canSpread (hn : (s.types.map (·.name)).Nodup)
    (hp : s.type? p.name = some p) (habstract : p.isAbstract = true) {t : TypeDef}
    (ht : s.type? t.name = some t) (hfields : t.hasFields = true)
    (hspread : canSpread s (some p) t = true)
    (hinterface : t.kind = .interface → ∃ n ∈ s.possibleTypes p, ∃ u, s.type? n = some u ∧
      t.name ∈ u.body.interfaces) : t.name ∈ conditionNames s p := by
  rw [mem_conditionNames]
  simp only [TypeDef.hasFields, Bool.or_eq_true, beq_iff_eq] at hfields
  rcases hfields with hobject | hkind
  · simp only [canSpread, Option.any_some, Bool.and_eq_true] at hspread
    have hmem := Schema.mem_possibleTypes_of_overlap hn hp habstract ht hobject hspread.2
    exact ⟨t.name, hmem, t, ht, .inl rfl⟩
  · obtain ⟨n, hmem, u, hu, hi⟩ := hinterface hkind
    exact ⟨n, hmem, u, hu, .inr hi⟩

end Candidates

/-- **Type conditions and spreads agree.** In a schema with one type to a name, let `p` be a
composite type that stands for objects. There are type conditions for it, each once, and a fragment
on one of them can be spread in a selection from `p`, unless it is around the place. An object or an
interface on which a fragment can be spread there is a type condition for `p`, if `p` is abstract,
and the interface is one that a possible type of `p` implements. -/
theorem typeConditions_agree {s : Schema} (hn : (s.types.map (·.name)).Nodup) {p : TypeDef}
    (hp : s.type? p.name = some p) (hcomposite : p.isComposite = true)
    (hobjects : s.StandsForObjects p) :
    ∃ ss, Candidates.typeConditions s (some p) = .ok ss ∧ (ss.map (·.text)).Nodup ∧
      (∀ x ∈ ss, ∀ (ls : List Link) (hs : List FragmentHead), ∀ h ∈ hs, h.type = x.text →
        Candidates.enclosingFragment? ls ≠ some h.name →
          h.asSpread ∈ Candidates.spreads s (some p) ls hs) ∧
      ∀ t, p.isAbstract = true → s.type? t.name = some t → t.hasFields = true →
        (∃ ls hs, ∃ h ∈ hs, h.type = t.name ∧ h.asSpread ∈ Candidates.spreads s (some p) ls hs) →
        (t.kind = .interface → ∃ n ∈ s.possibleTypes p, ∃ u, s.type? n = some u ∧
          t.name ∈ u.body.interfaces) →
        t.name ∈ ss.map (·.text) := by
  by_cases habstract : p.isAbstract = true
  · have hkind : ∀ n ∈ s.possibleTypes p, ∀ t ∈ s.type? n, t.kind = .object :=
      fun n hm t ht => hobjects.kind_eq hn hm ht
    obtain ⟨ss, hss, htext⟩ := Candidates.typeConditions_of_isAbstract habstract hkind
    refine ⟨ss, hss, htext ▸ (nodup_eraseDups _).filter _, ?_, ?_⟩
    · intro x hx ls hs h hh htype hne
      obtain ⟨hm, hsome⟩ := List.mem_filter.1 (htext ▸ List.mem_map_of_mem hx)
      obtain ⟨t, ht⟩ := Option.isSome_iff_exists.1 hsome
      refine Candidates.asSpread_mem_spreads_iff.2 ⟨hh, hne, ?_⟩
      rw [htype, ht]
      exact Candidates.canSpread_of_mem_conditionNames hn hobjects habstract hm ht
    · rintro t - ht hfields ⟨ls, hs, h, -, htype, hkept⟩ hinterface
      obtain ⟨-, -, hspread⟩ := Candidates.asSpread_mem_spreads_iff.1 hkept
      rw [htype, ht, Option.any_some] at hspread
      have hm := Candidates.mem_conditionNames_of_canSpread hn hp habstract ht hfields hspread
        hinterface
      exact htext ▸ List.mem_filter.2 ⟨hm, by rw [ht]; rfl⟩
  · -- A concrete type stands for itself only.
    have htypes : Candidates.conditionTypes s (some p) = .ok [p] := if_neg habstract
    obtain ⟨ss, hss, htext⟩ := Candidates.text_typeConditions htypes
    refine ⟨ss, hss, htext ▸ List.nodup_singleton _, ?_, fun t ha => absurd ha habstract⟩
    intro x hx ls hs h hh htype hne
    have hmem : x.text ∈ ss.map (·.text) := List.mem_map_of_mem hx
    have hname : x.text = p.name := by
      rw [htext] at hmem
      exact List.mem_singleton.1 hmem
    refine Candidates.asSpread_mem_spreads_iff.2 ⟨hh, hne, ?_⟩
    rw [htype, hname, hp]
    simp [Candidates.canSpread, hcomposite]

/-- In a selection from a union its members are type conditions, and the interfaces that these
implement, also one that another one implements. -/
theorem typeConditions_agree_union :
    ∃ (s : Schema) (p : TypeDef) (ss : List Suggestion), p.name = "Hit" ∧ p.kind = .union ∧
      (s.types.map (·.name)).Nodup ∧ s.type? p.name = some p ∧ s.StandsForObjects p ∧
      Candidates.typeConditions s (some p) = .ok ss ∧
      ss.map (·.text) = ["Human", "Ship", "Character", "Named"] ∧
      ∀ x ∈ ss, ∀ (ls : List Link) (hs : List FragmentHead), ∀ h ∈ hs, h.type = x.text →
        Candidates.enclosingFragment? ls ≠ some h.name →
          h.asSpread ∈ Candidates.spreads s (some p) ls hs := by
  let p : TypeDef := { name := "Hit", body := .union ["Human", "Ship"] }
  let types : List TypeDef := [
    { name := "Query", body := .object [] [{ name := "hits", type := .list (.named "Hit") }] }, p,
    { name := "Named", body := .interface [] [{ name := "name", type := .named "String" }] },
    { name := "Character", body := .interface ["Named"] [] },
    { name := "Human", body := .object ["Character", "Named"] [] },
    { name := "Droid", body := .object ["Character", "Named"] [] },
    { name := "Ship", body := .object ["Named"] [] }]
  let s : Schema := .assemble (some "Query") none none types []
  have hn : (s.types.map (·.name)).Nodup := Schema.nodup_names_assemble _ _ _ types []
  have hp : s.type? p.name = some p := by decide +kernel
  have hobjects : s.StandsForObjects p := by decide +kernel
  obtain ⟨ss, hss, -, hkept, -⟩ := typeConditions_agree hn hp (by decide) hobjects
  have hnames : (Candidates.typeConditions s (some p)).map (fun ss => ss.map (·.text)) =
      .ok ["Human", "Ship", "Character", "Named"] := by decide +kernel
  rw [hss] at hnames
  exact ⟨s, p, ss, rfl, rfl, hn, hp, hobjects, hss, Except.ok.inj hnames, hkept⟩

/-- A union of interfaces and an object that implements another object are read without complaint.
In a selection from the union the interface is a type condition, and in one from an interface the
other object is, and a fragment on it cannot be spread. -/
theorem typeConditions_unfit :
    ∃ xs : List (String × String × List String × String), xs = [
        ("U", "I", ["I"], "type Query \x7b u: U \x7d union U = I " ++
          "interface I \x7b a: Int \x7d type A implements I \x7b a: Int \x7d"),
        ("I", "B", ["A", "I", "B"], "type Query \x7b i: I \x7d interface I \x7b a: Int \x7d " ++
          "type A implements I & B \x7b a: Int \x7d type B \x7b b: Int \x7d")] ∧
      ∀ x ∈ xs, ∃ s ∈ Schema.ofDefinitions? x.2.2.2.toList, ∃ p ∈ s.type? x.1,
        p.isComposite = true ∧
        (Candidates.typeConditions s (some p)).map (fun ss => ss.map (·.text)) = .ok x.2.2.1 ∧
        x.2.1 ∈ x.2.2.1 ∧ Candidates.enclosingFragment? [] ≠ some "F" ∧
        Candidates.spreads s (some p) [] [⟨"F", x.2.1⟩] = [] :=
  ⟨_, rfl, by decide +kernel⟩

end QueryAssist
