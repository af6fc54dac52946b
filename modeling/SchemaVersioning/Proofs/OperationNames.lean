import SchemaVersioning.Proofs.RoundTrips

/-!
# Names of operations

The operations of a versioned type and its upgrade function are named after the type, but for the
type that a configuration sets apart: its operations have names without a type, and its upgrade
function has the bare name of upgrade functions.  No type name can bring about the names of the type
set apart, which are too short for that, so no two types share a name (`no_shared_operation`).
-/

namespace SchemaVersioning

open Checked

/-! ## Names with parts around them -/

/-- A name between two parts, or a name of its own for what is set apart. -/
def namedBetween (apart own before after name : String) : String :=
  if name = apart then own else before ++ name ++ after

/-- A name of its own that is shorter than the parts together is no name between them. -/
theorem namedBetween_injective {apart own before after : String}
    (h : own.length < before.length + after.length) :
    Function.Injective (namedBetween apart own before after) := by
  have hlonger : ∀ name, own ≠ before ++ name ++ after := by
    intro name heq
    have hlength := congrArg String.length heq
    simp only [String.length_append] at hlength
    omega
  intro a b hab
  unfold namedBetween at hab
  by_cases ha : a = apart
  · by_cases hb : b = apart
    · rw [ha, hb]
    · rw [if_pos ha, if_neg hb] at hab
      exact absurd hab (hlonger b)
  · by_cases hb : b = apart
    · rw [if_neg ha, if_pos hb] at hab
      exact absurd hab.symm (hlonger a)
    · rw [if_neg ha, if_neg hb] at hab
      simpa using hab

namespace Config

variable (c : Config)

theorem encoderName_eq (t : String) : (c.operationNames t).1
    = namedBetween c.versionedTypeName "serialize" "serialize_" "" t := by
  unfold operationNames namedBetween
  split <;> simp

theorem decoderName_eq (t : String) : (c.operationNames t).2
    = namedBetween c.versionedTypeName "deserialize_opt" "deserialize_" "_opt" t := by
  unfold operationNames namedBetween
  split <;> rfl

theorem upgradeName_eq (t : String) : c.upgradeName t
    = namedBetween c.versionedTypeName c.upgradeFunctionName "" ("_" ++ c.upgradeFunctionName) t := by
  unfold upgradeName namedBetween
  split <;> simp [String.append_assoc]

theorem encoderName_injective : Function.Injective fun t => (c.operationNames t).1 := by
  simp only [encoderName_eq]
  exact namedBetween_injective (by decide)

theorem decoderName_injective : Function.Injective fun t => (c.operationNames t).2 := by
  simp only [decoderName_eq]
  exact namedBetween_injective (by decide)

theorem upgradeName_injective : Function.Injective c.upgradeName := by
  intro a b hab
  rw [upgradeName_eq, upgradeName_eq] at hab
  apply namedBetween_injective _ hab
  rw [String.length_append]
  have : "_".length = 1 := rfl
  omega

/-- An encoder and a decoder begin with different letters. -/
theorem encoderName_ne_decoderName (a b : String) :
    (c.operationNames a).1 ≠ (c.operationNames b).2 := by
  have hencoder : (c.operationNames a).1.toList.head? = some 's' := by
    unfold operationNames
    split <;> simp
  have hdecoder : (c.operationNames b).2.toList.head? = some 'd' := by
    unfold operationNames
    split <;> simp
  intro heq
  rw [heq, hdecoder] at hencoder
  cases hencoder

theorem nodup_operationNames {a b : String} (h : a ≠ b) :
    [(c.operationNames a).1, (c.operationNames a).2,
      (c.operationNames b).1, (c.operationNames b).2].Nodup := by
  have hencoders : (c.operationNames a).1 ≠ (c.operationNames b).1 :=
    fun heq => h (c.encoderName_injective heq)
  have hdecoders : (c.operationNames a).2 ≠ (c.operationNames b).2 :=
    fun heq => h (c.decoderName_injective heq)
  have hcrossed := (c.encoderName_ne_decoderName b a).symm
  simp [hencoders, hdecoders, hcrossed, encoderName_ne_decoderName]

/-- Types without repetition have operations whose names are without repetition. -/
theorem nodup_flatMap_operationNames {ts : List String} (h : ts.Nodup) :
    (ts.flatMap fun t => [(c.operationNames t).1, (c.operationNames t).2]).Nodup := by
  rw [List.nodup_flatMap]
  constructor
  · intro t _
    simpa using c.encoderName_ne_decoderName t t
  · apply h.imp
    intro a b hab
    have hfour := c.nodup_operationNames hab
    exact List.disjoint_of_nodup_append hfour

end Config

/-! ## Declarations of one type -/

/-- What is made of one entry of a list without repetition, picked out of what is made of all. -/
theorem filter_flatMap_of_nodup {α β : Type} {l : List α} (h : l.Nodup) {a : α} (ha : a ∈ l)
    {make : α → List β} {p : β → Bool} (hp : ∀ x, ∀ b ∈ make x, p b = true ↔ x = a) :
    (l.flatMap make).filter p = make a := by
  obtain ⟨before, after, rfl⟩ := List.append_of_mem ha
  have hnodup := List.nodup_middle.1 h
  have hothers : ∀ x ∈ before ++ after, (make x).filter p = [] := by
    intro x hx
    rw [List.filter_eq_nil_iff]
    intro b hb htrue
    rw [(hp x b hb).1 htrue] at hx
    exact (List.nodup_cons.1 hnodup).1 hx
  have hnone : ∀ xs : List α, (∀ x ∈ xs, x ∈ before ++ after) → (xs.flatMap make).filter p = [] := by
    intro xs hxs
    rw [List.filter_flatMap, List.flatMap_eq_nil_iff]
    exact fun x hx => hothers x (hxs x hx)
  have hall : (make a).filter p = make a :=
    List.filter_eq_self.2 fun b hb => (hp a b hb).2 rfl
  rw [List.flatMap_append, List.flatMap_cons, List.filter_append, List.filter_append, hall,
    hnone before fun x hx => List.mem_append_left _ hx,
    hnone after fun x hx => List.mem_append_right _ hx, List.nil_append, List.append_nil]

/-- An expression in the signature of a value names a path. -/
def ValueDecl.Mentions (v : ValueDecl) (p : Path) : Prop :=
  ∃ e ∈ v.typeExprs.flatMap TypeExpr.walk, e.path = p

instance (v : ValueDecl) (p : Path) : Decidable (v.Mentions p) :=
  inferInstanceAs (Decidable (∃ e ∈ v.typeExprs.flatMap TypeExpr.walk, e.path = p))

/-- Each type of a family is served by declarations of its own. -/
structure GeneratedFamily.Serves (g : GeneratedFamily) (f : Family) (c : Config) : Prop where
  /-- The operations that mention a type are its encoder and its decoder. -/
  operations : ∀ t ∈ f.typeNames, ∃ encoder decoder,
    g.operations.filter (·.Mentions [c.latestName, t]) = [encoder, decoder] ∧
      (encoder.name, decoder.name) = c.operationNames t ∧
      encoder.typeExprs = [.ofPath c.latestName [t], Family.bufferType] ∧
      decoder.typeExprs
        = [Family.bufferType, ⟨.named "option" [], [.ofPath c.latestName [t]], [], none⟩]
  /-- There are no operations but two for each type. -/
  count : g.operations.length = 2 * f.typeNames.length
  names : (g.operations.map (·.name)).Nodup
  /-- The latest module declares the types and no others, each of them once. -/
  declared : g.latestModule.types.map (·.name) = f.typeNames
  aliases : ∀ t ∈ f.typeNames, ∃ d, g.latestModule.types.filter (·.name = t) = [d] ∧
    d.alias? = some (.ofPath f.latest.name [t])

namespace Family

variable (f : Family) (c : Config)

/-- The operations of a type mention it and no other type of the latest version. -/
theorem mentions_operationsOf {t x : String} {v : ValueDecl} (h : v ∈ f.operationsOf c x) :
    v.Mentions [c.latestName, t] ↔ x = t := by
  simp only [operationsOf, List.mem_cons, List.not_mem_nil, or_false] at h
  rcases h with rfl | rfl <;>
    simp [ValueDecl.Mentions, ValueDecl.typeExprs, operation, bufferType, TypeExpr.ofPath,
      TypeExpr.ofHead, TypeExpr.walk, TypeExpr.walkAll, TypeExpr.path, Head.path]

theorem serves_synthesize (h : f.typeNames.Nodup) : (f.synthesize c).Serves f c where
  operations t ht := by
    have hfound : (f.synthesize c).operations.filter (·.Mentions [c.latestName, t])
        = f.operationsOf c t := by
      apply filter_flatMap_of_nodup h ht
      intro x v hv
      rw [decide_eq_true_iff, mentions_operationsOf f c hv]
    exact ⟨_, _, hfound, rfl, rfl, rfl⟩
  count := by
    simp [synthesize, operationsOf, List.length_flatMap, Nat.mul_comm]
  names := by
    have hnames : (f.synthesize c).operations.map (·.name)
        = f.typeNames.flatMap fun t => [(c.operationNames t).1, (c.operationNames t).2] := by
      rw [synthesize, List.map_flatMap]
      rfl
    rw [hnames]
    exact c.nodup_flatMap_operationNames h
  declared := by
    simp [synthesize, latestModule, latestAlias, Function.comp_def]
  aliases t ht := by
    refine ⟨f.latestAlias t, ?_, rfl⟩
    have htypes : (f.synthesize c).latestModule.types
        = f.typeNames.flatMap fun x => [f.latestAlias x] := List.map_eq_flatMap
    rw [htypes]
    apply filter_flatMap_of_nodup h ht
    intro x d hd
    rw [List.mem_singleton.1 hd]
    exact decide_eq_true_iff

end Family

/-- A family of types of some names. -/
def namesFamily (names : List String) : Family := { singleFamily with typeNames := names }

theorem wellFormed_namesFamily {names : List String} (h : 1 ≤ names.length) :
    (namesFamily names).WellFormed :=
  { singleFamily_wellFormed with typed := h }

end SchemaVersioning
