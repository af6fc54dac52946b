import SchemaVersioning.Proofs.WrittenReferences

/-!
# Enclosing contexts

The context of a reference is carried down the tree while the modules of a unit are visited.  It
comes to what the line of modules around the reference says at a glance: a test anywhere on the line
decides, else the innermost member of a container that is a version or the latest alias, else the
innermost functor body (`Encloses`, `contexts_enclose_exactly`).
-/

namespace SchemaVersioning

/-! ## Modules that decide -/

/-- A module that follows a line sits directly in a container, at the end of the line, and is named
as a version or as the latest alias.  Inside it is the context of that version or alias. -/
inductive Tags (c : Config) (line : List ModuleDecl) (m : ModuleDecl) : Context → Prop
  | version {P : Place} {d : FamilyDeclaration} {k : Nat} (parent : P.line = line)
      (container : P.declaration? c = some d) (named : versionNumber? m.name = some k) :
      Tags c line m (.version d.name k)
  | latest {P : Place} {d : FamilyDeclaration} (parent : P.line = line)
      (container : P.declaration? c = some d) (unnumbered : versionNumber? m.name = none)
      (named : m.name = c.latestName) : Tags c line m (.latestAlias d.name)

/-- No module of a line is a version or the latest alias of a container. -/
def Untagged (c : Config) (line : List ModuleDecl) : Prop :=
  ∀ before m, before ++ [m] <+: line → ∀ x, ¬ Tags c before m x

/-- What the modules of a line say of the context inside the last of them. -/
inductive Encloses (c : Config) (line : List ModuleDecl) : Context → Prop
  | test (tested : ∃ m ∈ line, c.isTest m = true) : Encloses c line .test
  | member {before : List ModuleDecl} {m : ModuleDecl} {x : Context}
      (untested : ∀ n ∈ line, c.isTest n = false) (begins : before ++ [m] <+: line)
      (tagged : Tags c before m x)
      (innermost : ∀ further n, further ++ [n] <+: line → before.length < further.length →
        ∀ y, ¬ Tags c further n y) : Encloses c line x
  | functorBody {before after : List ModuleDecl} {m : ModuleDecl} {arity : Nat}
      (untested : ∀ n ∈ line, c.isTest n = false) (untagged : Untagged c line)
      (split : line = before ++ m :: after) (body : m.arity? = some arity)
      (innermost : ∀ n ∈ after, n.arity? = none) : Encloses c line (.functorBody arity)
  | ordinary (untested : ∀ n ∈ line, c.isTest n = false) (untagged : Untagged c line)
      (bodiless : ∀ n ∈ line, n.arity? = none) : Encloses c line .ordinary

section Uniqueness

variable {c : Config} {line : List ModuleDecl} {m : ModuleDecl} {x y : Context}

/-- The place at the end of a line. -/
theorem Place.eq_of_line_eq {P Q : Place} (h : P.line = Q.line) : P = Q := by
  obtain ⟨a, m⟩ := P
  obtain ⟨b, n⟩ := Q
  obtain ⟨rfl, hm⟩ := List.append_inj' (show a ++ [m] = b ++ [n] from h) rfl
  rw [(List.cons.inj hm).1]

theorem Tags.unique (h : Tags c line m x) (h' : Tags c line m y) : x = y := by
  cases h with
  | @version P d k parent container named =>
    cases h' with
    | @version Q e j parent' container' named' =>
      obtain rfl := Place.eq_of_line_eq (parent.trans parent'.symm)
      obtain rfl := Option.some.inj (container.symm.trans container')
      rw [Option.some.inj (named.symm.trans named')]
    | latest _ _ unnumbered => cases named.symm.trans unnumbered
  | @latest P d parent container unnumbered named =>
    cases h' with
    | version _ _ named' => cases named'.symm.trans unnumbered
    | @latest Q e parent' container' unnumbered' named' =>
      obtain rfl := Place.eq_of_line_eq (parent.trans parent'.symm)
      rw [Option.some.inj (container.symm.trans container')]

theorem getLast?_arities (before : List ModuleDecl) {after : List ModuleDecl} {arity : Nat}
    (body : m.arity? = some arity) (innermost : ∀ n ∈ after, n.arity? = none) :
    ((before ++ m :: after).filterMap (·.arity?)).getLast? = some arity := by
  have hafter : after.filterMap (·.arity?) = [] :=
    List.filterMap_eq_nil_iff.2 innermost
  simp [List.filterMap_append, body, hafter]

/-- The members of containers on a line that decide are compared by their depth. -/
theorem Encloses.member_unique {before before' : List ModuleDecl} {m' : ModuleDecl}
    (begins : before ++ [m] <+: line) (tagged : Tags c before m x)
    (innermost : ∀ further n, further ++ [n] <+: line → before.length < further.length →
      ∀ y, ¬ Tags c further n y)
    (begins' : before' ++ [m'] <+: line) (tagged' : Tags c before' m' y)
    (innermost' : ∀ further n, further ++ [n] <+: line → before'.length < further.length →
      ∀ y, ¬ Tags c further n y) : x = y := by
  rcases lt_trichotomy before.length before'.length with hlt | heq | hlt
  · exact absurd tagged' (innermost before' m' begins' hlt y)
  · have hline : before ++ [m] = before' ++ [m'] :=
      (List.prefix_of_prefix_length_le begins begins' (by simp [heq])).eq_of_length (by simp [heq])
    obtain ⟨rfl, hm⟩ := List.append_inj' hline rfl
    obtain rfl : m = m' := by simpa using hm
    exact tagged.unique tagged'
  · exact absurd tagged (innermost' before m begins hlt x)

/-- A line encloses one context. -/
theorem Encloses.unique (h : Encloses c line x) (h' : Encloses c line y) : x = y := by
  have habsurd : (∃ n ∈ line, c.isTest n = true) → (∀ n ∈ line, c.isTest n = false) → False :=
    fun ⟨n, hn, ht⟩ hf => by rw [hf n hn] at ht; cases ht
  cases h with
  | test tested =>
    cases h' with
    | test _ => rfl
    | member untested | functorBody untested | ordinary untested =>
      exact (habsurd tested untested).elim
  | member untested begins tagged innermost =>
    cases h' with
    | test tested => exact (habsurd tested untested).elim
    | member _ begins' tagged' innermost' =>
      exact Encloses.member_unique begins tagged innermost begins' tagged' innermost'
    | functorBody _ untagged | ordinary _ untagged => exact absurd tagged (untagged _ _ begins _)
  | @functorBody before _ _ _ untested untagged split body innermost =>
    cases h' with
    | test tested => exact (habsurd tested untested).elim
    | member _ begins tagged => exact absurd tagged (untagged _ _ begins _)
    | @functorBody before' _ _ _ _ _ split' body' innermost' =>
      have hlast := getLast?_arities before body innermost
      rw [← split, split', getLast?_arities before' body' innermost'] at hlast
      rw [Option.some.inj hlast]
    | ordinary _ _ bodiless =>
      rw [bodiless _ (by rw [split]; simp)] at body
      cases body
  | ordinary untested untagged bodiless =>
    cases h' with
    | test tested => exact (habsurd tested untested).elim
    | member _ begins tagged => exact absurd tagged (untagged _ _ begins _)
    | functorBody _ _ split body =>
      rw [bodiless _ (by rw [split]; simp)] at body
      cases body
    | ordinary => rfl

end Uniqueness

/-! ## One step down -/

section Step

variable {u : CompilationUnit} {c : Config} {line : List ModuleDecl} {m : ModuleDecl}
  {x outer : Context}

/-- Where siblings have distinct names, the container at the path of a line is declared there. -/
theorem containerAt?_ofLine_eq_some_iff (hu : u.DistinctSiblings) (hline : Lineage u.modules line)
    {d : FamilyDeclaration} :
    containerAt? (u.familyDeclarations c) (Path.ofLine line) = some d ↔
      ∃ P : Place, P.line = line ∧ P.declaration? c = some d := by
  constructor
  · intro h
    obtain ⟨hmem, hpath⟩ := List.mem_filter.1 (List.mem_of_getLast? h)
    obtain ⟨P, hP, hd⟩ := mem_familyDeclarations.1 hmem
    rw [Place.containerPath_of_declaration? hd] at hpath
    exact ⟨P, hu.eq_of_ofLine_eq (mem_places.1 hP) hline (of_decide_eq_true hpath), hd⟩
  · rintro ⟨P, rfl, hd⟩
    have hmem := mem_familyDeclarations.2 ⟨P, mem_places.2 hline, hd⟩
    have hcontainer := containerAt?_eq hu hmem
    rwa [Place.containerPath_of_declaration? hd] at hcontainer

/-- A member that is a version or the latest alias resets the context. -/
theorem enter_of_tags (hu : u.DistinctSiblings) (hline : Lineage u.modules line)
    (htest : ¬ (outer = .test ∨ c.isTest m = true)) (h : Tags c line m x) :
    outer.enter c (u.familyDeclarations c) (Path.ofLine line) m = x := by
  have hcontainer {P : Place} {d : FamilyDeclaration} (hP : P.line = line)
      (hd : P.declaration? c = some d) :
      containerAt? (u.familyDeclarations c) (Path.ofLine line) = some d :=
    (containerAt?_ofLine_eq_some_iff hu hline).2 ⟨P, hP, hd⟩
  cases h with
  | version parent container named =>
    simp only [Context.enter, if_neg htest, hcontainer parent container, Context.enterMember, named]
  | latest parent container unnumbered named =>
    simp only [Context.enter, if_neg htest, hcontainer parent container, Context.enterMember,
      unnumbered, if_pos named]

/-- Any other module hands on what is around it. -/
theorem enter_of_untagged (hu : u.DistinctSiblings) (hline : Lineage u.modules line)
    (htest : ¬ (outer = .test ∨ c.isTest m = true)) (h : ∀ y, ¬ Tags c line m y) :
    outer.enter c (u.familyDeclarations c) (Path.ofLine line) m = outer.inherit m := by
  rw [Context.enter, if_neg htest]
  cases hcontainer : containerAt? (u.familyDeclarations c) (Path.ofLine line) with
  | none => rfl
  | some d =>
    obtain ⟨P, hP, hd⟩ := (containerAt?_ofLine_eq_some_iff hu hline).1 hcontainer
    cases hk : versionNumber? m.name with
    | some k => exact absurd (Tags.version hP hd hk) (h _)
    | none =>
      by_cases hlatest : m.name = c.latestName
      · exact absurd (Tags.latest hP hd hk hlatest) (h _)
      · simp only [Context.enterMember, hk, if_neg hlatest]

theorem begins_concat {further : List ModuleDecl} {n : ModuleDecl}
    (h : further ++ [n] <+: line ++ [m]) : further = line ∧ n = m ∨ further ++ [n] <+: line := by
  rcases List.prefix_concat_iff.1 h with h | h
  · obtain ⟨rfl, hn⟩ := List.append_inj' h rfl
    exact Or.inl ⟨rfl, by simpa using hn⟩
  · exact Or.inr h

theorem untagged_concat (h : Untagged c line) (hm : ∀ y, ¬ Tags c line m y) :
    Untagged c (line ++ [m]) := by
  intro before n hbegins
  rcases begins_concat hbegins with ⟨rfl, rfl⟩ | hbegins
  · exact hm
  · exact h before n hbegins

theorem forall_mem_concat {P : ModuleDecl → Prop} (h : ∀ n ∈ line, P n) (hm : P m) :
    ∀ n ∈ line ++ [m], P n := by
  intro n hn
  rcases List.mem_append.1 hn with hn | hn
  · exact h n hn
  · rwa [List.mem_singleton.1 hn]

/-- What a line encloses decides for one module more that is neither a test nor tagged. -/
theorem Encloses.inherit (h : Encloses c line x) (hx : x ≠ .test) (hm : c.isTest m = false)
    (hnone : ∀ y, ¬ Tags c line m y) : Encloses c (line ++ [m]) (x.inherit m) := by
  cases h with
  | test => exact absurd rfl hx
  | @member before n x untested begins tagged innermost =>
    have hkept : x.inherit m = x := by cases tagged <;> rfl
    rw [hkept]
    refine .member (forall_mem_concat untested hm) (begins.trans (List.prefix_append _ _)) tagged ?_
    intro further n hbegins hlonger
    rcases begins_concat hbegins with ⟨rfl, rfl⟩ | hbegins
    · exact hnone
    · exact innermost further n hbegins hlonger
  | @functorBody before after n _ untested untagged split body innermost =>
    have htested := forall_mem_concat untested hm
    have htags := untagged_concat untagged hnone
    cases harity : m.arity? with
    | some arity =>
      simp only [Context.inherit, harity]
      exact .functorBody htested htags rfl harity (fun n hn => nomatch hn)
    | none =>
      simp only [Context.inherit, harity]
      have hsplit : line ++ [m] = before ++ n :: (after ++ [m]) := by
        rw [split, List.append_assoc, List.cons_append]
      exact .functorBody htested htags hsplit body (forall_mem_concat innermost harity)
  | ordinary untested untagged bodiless =>
    have htested := forall_mem_concat untested hm
    have htags := untagged_concat untagged hnone
    cases harity : m.arity? with
    | some arity =>
      simp only [Context.inherit, harity]
      exact .functorBody htested htags rfl harity (fun n hn => nomatch hn)
    | none =>
      simp only [Context.inherit, harity]
      exact .ordinary htested htags (forall_mem_concat bodiless harity)

end Step

/-! ## Contexts of lines and of writings -/

section Lines

variable {u : CompilationUnit} {c : Config}

/-- The context that is carried down a line is the one that the line encloses. -/
theorem encloses_within (hu : u.DistinctSiblings) {line : List ModuleDecl}
    (hline : Lineage u.modules line) :
    Encloses c line (Context.within c (u.familyDeclarations c) line) := by
  induction line using List.reverseRecOn with
  | nil =>
    refine .ordinary (fun n hn => nomatch hn) ?_ (fun n hn => nomatch hn)
    intro before m hbegins
    simpa using List.prefix_nil.1 hbegins
  | append_singleton line m ih =>
    have habove : Lineage u.modules line := (lineage_concat.1 hline).1
    by_cases htest : (line ++ [m]).any c.isTest = true
    · rw [(within_eq_test_iff _).2 htest]
      exact .test (by simpa using htest)
    · have houter : Context.within c (u.familyDeclarations c) line ≠ .test := fun h =>
        htest (by rw [List.any_append, (within_eq_test_iff _).1 h, Bool.true_or])
      have hm : c.isTest m = false := by
        rw [Bool.eq_false_iff]
        exact fun h => htest (by simp [h])
      have hstep : ¬ (Context.within c (u.familyDeclarations c) line = .test ∨ c.isTest m = true) :=
        fun h => h.elim houter (by simp [hm])
      rw [Context.within_concat]
      by_cases htags : ∃ y, Tags c line m y
      · obtain ⟨y, hy⟩ := htags
        rw [enter_of_tags hu habove hstep hy]
        have huntested : ∀ n ∈ line ++ [m], c.isTest n = false := by
          simpa only [Bool.not_eq_true, List.any_eq_false] using htest
        refine .member huntested (List.prefix_refl _) hy ?_
        intro further n hbegins hlonger
        have hlength := hbegins.length_le
        simp only [List.length_append, List.length_singleton] at hlength
        omega
      · have hnone : ∀ y, ¬ Tags c line m y := fun y hy => htags ⟨y, hy⟩
        rw [enter_of_untagged hu habove hstep hnone]
        exact (ih habove).inherit houter hm hnone

theorem within_eq_iff (hu : u.DistinctSiblings) {line : List ModuleDecl}
    (hline : Lineage u.modules line) {x : Context} :
    Context.within c (u.familyDeclarations c) line = x ↔ Encloses c line x :=
  ⟨fun h => h ▸ encloses_within hu hline, (encloses_within hu hline).unique⟩

end Lines

/-- The context of something written at a place.  Functor arguments are written outside of the
module.  So is the target of an alias that is a functor body, or lies in one; a version or a latest
alias keeps its own context for its target. -/
inductive Place.IsWrittenIn (c : Config) (p : Place) : Writing → Context → Prop
  | use {member : String} {location : Option Location} {definition : Bool} {node : TypeNode}
      {x : Context} (inside : Encloses c p.line x) :
      p.IsWrittenIn c (.use member location definition node) x
  | testArgument {target : String} (inside : Encloses c p.line .test) :
      p.IsWrittenIn c (.argument target) .test
  | argument {target : String} {x : Context} (untested : ¬ Encloses c p.line .test)
      (outside : Encloses c p.ancestors x) : p.IsWrittenIn c (.argument target) x
  | functorAlias {target : String} {arity : Nat} {x : Context}
      (inside : Encloses c p.line (.functorBody arity)) (outside : Encloses c p.ancestors x) :
      p.IsWrittenIn c (.aliasTarget target) x
  | ownAlias {target : String} {x : Context} (inside : Encloses c p.line x)
      (bodiless : ∀ arity, x ≠ .functorBody arity) : p.IsWrittenIn c (.aliasTarget target) x

theorem Site.context_aliasTarget (s : Site) (target : String) :
    (∃ arity, s.context = .functorBody arity ∧ (s.reference (.aliasTarget target)).context = s.outer)
      ∨ (∀ arity, s.context ≠ .functorBody arity) ∧
        (s.reference (.aliasTarget target)).context = s.context := by
  unfold Site.reference Site.moduleReference
  cases s.context with
  | functorBody arity => exact Or.inl ⟨arity, rfl, rfl⟩
  | _ => exact Or.inr ⟨fun _ => Context.noConfusion, rfl⟩

theorem Place.context_reference_eq_iff {u : CompilationUnit} {c : Config}
    (hu : u.DistinctSiblings) {p : Place} (hp : p ∈ u.places) (w : Writing) (x : Context) :
    ((p.site c (u.familyDeclarations c)).reference w).context = x ↔ p.IsWrittenIn c w x := by
  have hlineage : Lineage u.modules p.line := mem_places.1 hp
  have hinside (y : Context) : (p.site c (u.familyDeclarations c)).context = y ↔
      Encloses c p.line y := within_eq_iff hu hlineage
  have houtside (y : Context) : (p.site c (u.familyDeclarations c)).outer = y ↔
      Encloses c p.ancestors y := within_eq_iff hu (lineage_concat.1 hlineage).1
  cases w with
  | use member location definition node =>
    exact (hinside x).trans ⟨.use, fun h => by cases h; assumption⟩
  | argument target =>
    show (if (p.site c (u.familyDeclarations c)).context = .test then .test
      else (p.site c (u.familyDeclarations c)).outer) = x ↔ _
    by_cases htest : (p.site c (u.familyDeclarations c)).context = .test
    · rw [if_pos htest]
      have htested := (hinside _).1 htest
      exact ⟨fun h => h ▸ .testArgument htested, fun h => by
        cases h with
        | testArgument => rfl
        | argument untested => exact absurd htested untested⟩
    · rw [if_neg htest, houtside]
      have huntested := mt (hinside _).2 htest
      exact ⟨.argument huntested, fun h => by
        cases h with
        | testArgument inside => exact absurd inside huntested
        | argument _ outside => exact outside⟩
  | aliasTarget target =>
    rcases Site.context_aliasTarget (p.site c (u.familyDeclarations c)) target with
      ⟨arity, hcontext, halias⟩ | ⟨hbodiless, halias⟩
    · have hown := (hinside _).1 hcontext
      rw [halias, houtside]
      exact ⟨.functorAlias hown, fun h => by
        cases h with
        | functorAlias _ outside => exact outside
        | ownAlias inside bodiless => exact absurd (inside.unique hown) (bodiless arity)⟩
    · rw [halias, hinside]
      exact ⟨fun h => .ownAlias h fun arity harity => hbodiless arity (harity ▸ (hinside x).2 h),
        fun h => by
          cases h with
          | functorAlias inside => exact absurd ((hinside _).2 inside) (hbodiless _)
          | ownAlias inside => exact inside⟩

/-- Where siblings have distinct names, the context of a reference is the one that the modules
around it spell out. -/
theorem contexts_enclose_exactly {u : CompilationUnit} (hu : u.DistinctSiblings) (c : Config) :
    List.Forall₂ (fun (w : Place × Writing) r => ∀ x, r.context = x ↔ w.1.IsWrittenIn c w.2 x)
      u.writings (u.index c).references := by
  rw [index_references_eq, List.forall₂_map_right_iff]
  refine List.forall₂_same.2 fun w hw x => ?_
  obtain ⟨p, hp, hmem⟩ := List.mem_flatMap.1 hw
  obtain ⟨v, -, rfl⟩ := List.mem_map.1 hmem
  exact Place.context_reference_eq_iff hu hp v x

/-- A functor with a family, in a version of which another functor, a test and a second family are
nested, and beside it an application of a functor. -/
def nestedUnit : CompilationUnit where
  name := "ledger"
  modules := [
    { ModuleDecl.bare "Make" [] [
        { ModuleDecl.bare "Stable" [] [
            .bare "V1" [] [
              { ModuleDecl.bare "Keyed" [] [] with
                functor := some ⟨2, [], by decide⟩
                aliasOf := some "Table"
                functorArguments := ["Key"] },
              { ModuleDecl.bare "Checks" [] [] with
                attributes := ["test"], functorArguments := ["Sample"] },
              .bare "Part" [] [
                { ModuleDecl.bare "Stable" [] [
                    { ModuleDecl.bare "V7" [] [] with aliasOf := some "Seventh" }] with
                  attributes := ["versioned"] }]],
            { ModuleDecl.bare "Latest" [] [] with aliasOf := some "V1" }] with
          attributes := ["versioned"] },
        { ModuleDecl.bare "Applied" [] [] with
          functor := some ⟨3, [], by decide⟩
          aliasOf := some "Make"
          functorArguments := ["Order"] }] with
      functor := some ⟨1, [], by decide⟩ }]

theorem contexts_enclose_exactly_nestedUnit :
    nestedUnit.DistinctSiblings ∧
      List.Forall₂
        (fun (w : Place × Writing) r => ∀ x, r.context = x ↔ w.1.IsWrittenIn .standard w.2 x)
        nestedUnit.writings (nestedUnit.index .standard).references ∧
      (nestedUnit.index .standard).references.map (fun r => (r.path, r.context))
        = [(["Key"], .version "Make" 1), (["Table"], .version "Make" 1), (["Sample"], .test),
          (["Seventh"], .version "Make.Stable.V1.Part" 7), (["V1"], .latestAlias "Make"),
          (["Order"], .functorBody 1), (["Make"], .functorBody 1)] :=
  ⟨by decide, contexts_enclose_exactly (by decide) .standard, by decide +kernel⟩

end SchemaVersioning
