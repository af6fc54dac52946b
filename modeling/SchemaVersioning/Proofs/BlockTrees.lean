import SchemaVersioning.Telemetry.Tracer

/-!
# Failures in trees of blocks

A block inside of a tree is told by its address: the positions of the blocks around it and its own,
among their siblings, from the outermost block on.  A guard around a block has no address itself.
Blocks run in order until one fails (`Entered`); a failure leaves the block whose body raises it and
goes on through the blocks around it, up to one that is guarded (`Leaves`).  Both are said of the
tree alone, and the answer of a run agrees (`failed?_eval`).
-/

namespace SchemaVersioning

/-- Where a block stands in a tree. -/
abbrev Address := List Nat

/-- Of two blocks the one ends first that is inside of the other, or whose way parts from the
other's at an earlier sibling. -/
inductive EndsBefore : Address → Address → Prop where
  | inside (i : Nat) (a : Address) : EndsBefore (i :: a) []
  | earlier {i j : Nat} (a b : Address) (h : i < j) : EndsBefore (i :: a) (j :: b)
  | deeper {a b : Address} (i : Nat) (h : EndsBefore a b) : EndsBefore (i :: a) (i :: b)

namespace EndsBefore

theorem irrefl (a : Address) : ¬ EndsBefore a a := by
  induction a with
  | nil => rintro ⟨⟩
  | cons i a ih =>
    rintro (_ | ⟨_, _, hlt⟩ | ⟨_, h⟩)
    · exact Nat.lt_irrefl i hlt
    · exact ih h

end EndsBefore

namespace Block

/-! ## Parts of a block -/

/-- Whether the failure of a block is caught outside of it. -/
def isGuarded : Block → Bool
  | run _ _ _ _ _ => false
  | guarded _ => true

def name : Block → String
  | run name _ _ _ _ => name
  | guarded body => body.name

def attributes : Block → List (String × Value)
  | run _ attributes _ _ _ => attributes
  | guarded body => body.attributes

def children : Block → List Block
  | run _ _ _ children _ => children
  | guarded body => body.children

/-- The failure that the body of a block raises after its children. -/
def failure? : Block → Option Failure
  | run _ _ _ _ failure => failure
  | guarded body => body.failure?

/-- The block at an address. -/
def at? : Block → Address → Option Block
  | b, [] => some b
  | b, i :: a => b.children[i]?.bind (·.at? a)

/-- A fact of a block that follows from its children's, and of a guarded one from that of its
body. -/
theorem induction {P : Block → Prop}
    (run : ∀ name attributes result children failure, (∀ c ∈ children, P c) →
      P (run name attributes result children failure))
    (guarded : ∀ body, P body → P (guarded body)) : ∀ b, P b
  | .run name attributes result children failure =>
    run name attributes result children failure fun c _ => induction run guarded c
  | .guarded body => guarded body (induction run guarded body)

/-- A fact of a block that follows from its children's, whether it is guarded or not. -/
theorem induction_children {P : Block → Prop} (h : ∀ b : Block, (∀ c ∈ b.children, P c) → P b)
    (b : Block) : P b := by
  suffices hall : P b ∧ ∀ c ∈ b.children, P c from hall.1
  induction b using induction with
  | run name attributes result children failure ih =>
    have hchildren : ∀ c ∈ children, P c := fun c hc => (ih c hc).1
    exact ⟨h _ hchildren, hchildren⟩
  | guarded body ih => exact ⟨h _ ih.2, ih.2⟩

/-! ## The course of a failure -/

/-- Nothing leaves the block: its failure is caught, or there is none. -/
inductive Completes : Block → Prop where
  | caught {b : Block} (hguarded : b.isGuarded = true) : Completes b
  | untroubled {b : Block} (hchildren : ∀ c ∈ b.children, Completes c) (hbody : b.failure? = none) :
      Completes b

/-- A failure that is raised by the body of the block at an address inside of a block leaves it.  A
guard stands outside of the block that it guards. -/
inductive Leaves : Block → Address → Failure → Prop where
  | raised {b : Block} {f : Failure} (hchildren : ∀ c ∈ b.children, Completes c)
      (hbody : b.failure? = some f) : Leaves b [] f
  | through {b c : Block} {i : Nat} {r : Address} {f : Failure} (hc : b.children[i]? = some c)
      (hearlier : ∀ d ∈ b.children.take i, Completes d) (hguarded : c.isGuarded = false)
      (h : Leaves c r f) : Leaves b (i :: r) f

/-- The block at an address is entered: no block before it is left by a failure. -/
inductive Entered : Block → Address → Prop where
  | outermost (b : Block) : Entered b []
  | inner {b c : Block} {i : Nat} {a : Address} (hc : b.children[i]? = some c)
      (hearlier : ∀ d ∈ b.children.take i, Completes d) (h : Entered c a) : Entered b (i :: a)

/-- The failure that is raised at `r` passes through the block at `a`. -/
def Passes (b : Block) (r : Address) (f : Failure) (a : Address) : Prop :=
  ∃ c inside, b.at? a = some c ∧ r = a ++ inside ∧ c.Leaves inside f

mutual

/-- The failure that the caller of a block sees. -/
def escape? : Block → Option Failure
  | run _ _ _ children failure => (firstEscape? children).or failure
  | guarded _ => none

/-- The failure that ends a sequence of blocks. -/
def firstEscape? : List Block → Option Failure
  | [] => none
  | b :: rest => (escape? b).or (firstEscape? rest)

end

/-- The failure that leaves a block. -/
def leaving? (b : Block) : Option Failure := (firstEscape? b.children).or b.failure?

variable {b : Block} {f : Failure}

theorem escape?_of_isGuarded (h : b.isGuarded = true) : b.escape? = none := by
  cases b with
  | run => cases h
  | guarded body => rw [escape?]

theorem escape?_of_not_isGuarded (h : b.isGuarded = false) : b.escape? = b.leaving? := by
  cases b with
  | run => rw [escape?, leaving?, children, failure?]
  | guarded body => cases h

theorem not_isGuarded_of_escape? (h : b.escape? = some f) : b.isGuarded = false := by
  cases b with
  | run => rfl
  | guarded body => cases h

theorem firstEscape?_eq (blocks : List Block) : firstEscape? blocks = blocks.findSome? escape? := by
  induction blocks with
  | nil => rfl
  | cons b rest ih =>
    rw [firstEscape?, ih, List.findSome?_cons]
    cases b.escape? <;> rfl

theorem firstEscape?_eq_none_iff {blocks : List Block} :
    firstEscape? blocks = none ↔ ∀ c ∈ blocks, c.escape? = none := by
  rw [firstEscape?_eq, List.findSome?_eq_none_iff]

theorem firstEscape?_eq_some_iff {blocks : List Block} : firstEscape? blocks = some f ↔
    ∃ i c, blocks[i]? = some c ∧ (∀ d ∈ blocks.take i, d.escape? = none) ∧ c.escape? = some f := by
  rw [firstEscape?_eq, List.findSome?_eq_some_iff]
  constructor
  · rintro ⟨earlier, c, later, rfl, hc, hearlier⟩
    refine ⟨earlier.length, c, by simp, ?_, hc⟩
    rwa [List.take_left]
  · rintro ⟨i, c, hi, hearlier, hc⟩
    obtain ⟨hlt, rfl⟩ := List.getElem?_eq_some_iff.1 hi
    refine ⟨blocks.take i, blocks[i], blocks.drop (i + 1), ?_, hc, hearlier⟩
    rw [List.getElem_cons_drop, List.take_append_drop]

theorem completes_iff : b.Completes ↔ b.escape? = none := by
  induction b using induction_children with
  | h b ih =>
    have hchildren : (∀ c ∈ b.children, c.Completes) ↔ firstEscape? b.children = none := by
      rw [firstEscape?_eq_none_iff]
      exact forall₂_congr ih
    cases hguarded : b.isGuarded with
    | true => exact iff_of_true (.caught hguarded) (escape?_of_isGuarded hguarded)
    | false =>
      rw [escape?_of_not_isGuarded hguarded, leaving?, Option.or_eq_none_iff, ← hchildren]
      constructor
      · rintro (hcaught | ⟨hall, hbody⟩)
        · cases hguarded.symm.trans hcaught
        · exact ⟨hall, hbody⟩
      · rintro ⟨hall, hbody⟩
        exact .untroubled hall hbody

theorem all_complete_iff {blocks : List Block} :
    (∀ c ∈ blocks, c.Completes) ↔ ∀ c ∈ blocks, c.escape? = none :=
  forall₂_congr fun _ _ => completes_iff

/-- A failure that leaves a block is raised somewhere inside of it. -/
theorem exists_leaves_iff : (∃ r, b.Leaves r f) ↔ b.leaving? = some f := by
  induction b using induction_children with
  | h b ih =>
    rw [leaving?, Option.or_eq_some_iff, firstEscape?_eq_some_iff, firstEscape?_eq_none_iff]
    constructor
    · rintro ⟨r, ⟨hchildren, hbody⟩ | @⟨_, c, i, r, _, hc, hearlier, hguarded, h⟩⟩
      · exact Or.inr ⟨all_complete_iff.1 hchildren, hbody⟩
      · refine Or.inl ⟨i, c, hc, all_complete_iff.1 hearlier, ?_⟩
        rw [escape?_of_not_isGuarded hguarded]
        exact (ih c (List.mem_of_getElem? hc)).1 ⟨r, h⟩
    · rintro (⟨i, c, hc, hearlier, hescape⟩ | ⟨hchildren, hbody⟩)
      · have hguarded := not_isGuarded_of_escape? hescape
        rw [escape?_of_not_isGuarded hguarded] at hescape
        obtain ⟨r, h⟩ := (ih c (List.mem_of_getElem? hc)).2 hescape
        exact ⟨i :: r, .through hc (all_complete_iff.2 hearlier) hguarded h⟩
      · exact ⟨[], .raised (all_complete_iff.2 hchildren) hbody⟩

/-- What the caller of a block sees is what leaves it, unless it is guarded. -/
theorem escape?_eq_some_iff : b.escape? = some f ↔ b.isGuarded = false ∧ ∃ r, b.Leaves r f := by
  rw [exists_leaves_iff]
  cases hguarded : b.isGuarded with
  | true => simp [escape?_of_isGuarded hguarded]
  | false => simp [escape?_of_not_isGuarded hguarded]

/-! ## Where a failure goes -/

section Passing

variable {r a a' : Address}

theorem at?_cons_of_child {d : Block} {i : Nat} (hd : b.children[i]? = some d) (a : Address) :
    b.at? (i :: a) = d.at? a := by
  rw [at?, hd, Option.bind_some]

theorem at?_append (b : Block) (a a' : Address) :
    b.at? (a ++ a') = (b.at? a).bind (·.at? a') := by
  induction a generalizing b with
  | nil => rfl
  | cons i a ih =>
    rw [List.cons_append, at?, at?]
    cases b.children[i]? with
    | none => rfl
    | some c => exact ih c

theorem Entered.exists_at? (h : b.Entered a) : ∃ c, b.at? a = some c := by
  induction h with
  | outermost b => exact ⟨b, rfl⟩
  | inner hc _ _ ih =>
    obtain ⟨d, hd⟩ := ih
    exact ⟨d, (at?_cons_of_child hc _).trans hd⟩

/-- A failure that leaves a block is the one that a body inside of it raises. -/
theorem Leaves.raised_at (h : b.Leaves r f) : ∃ c, b.at? r = some c ∧ c.failure? = some f := by
  induction h with
  | @raised b _ _ hbody => exact ⟨b, rfl, hbody⟩
  | through hc _ _ _ ih =>
    obtain ⟨d, hd, hbody⟩ := ih
    exact ⟨d, (at?_cons_of_child hc _).trans hd, hbody⟩

/-- A failure that leaves a block has passed through the blocks around the one that raises it, and
through no others. -/
theorem Leaves.passes_iff (h : b.Leaves r f) : b.Passes r f a ↔ a <+: r := by
  constructor
  · rintro ⟨c, inside, -, rfl, -⟩
    exact List.prefix_append a inside
  · rintro ⟨inside, rfl⟩
    induction a generalizing b with
    | nil => exact ⟨b, inside, rfl, rfl, h⟩
    | cons i a ih =>
      obtain _ | ⟨hc, -, -, hinner⟩ := h
      obtain ⟨d, inside', hd, heq, hleaves⟩ := ih hinner
      exact ⟨d, inside', (at?_cons_of_child hc a).trans hd,
        by rw [List.cons_append, heq, List.cons_append], hleaves⟩

/-- On its way out of a block a failure meets no guard. -/
theorem Leaves.not_isGuarded {c : Block} (h : b.Leaves r f) (hne : a ≠ []) (ha : a <+: r)
    (hc : b.at? a = some c) : c.isGuarded = false := by
  induction h generalizing a with
  | raised => exact absurd (List.prefix_nil.1 ha) hne
  | @through b d i r f hd _ hguarded _ ih =>
    cases a with
    | nil => exact absurd rfl hne
    | cons j a =>
      obtain ⟨rfl, htail⟩ := List.cons_prefix_cons.1 ha
      rw [at?_cons_of_child hd] at hc
      by_cases hnil : a = []
      · subst hnil
        rw [at?, Option.some.injEq] at hc
        exact hc ▸ hguarded
      · exact ih hnil htail hc

/-- A failure that is caught outside of a block passes through none of the blocks around it. -/
theorem not_passes_of_isGuarded {c : Block} (hc : b.at? a = some c) (hguarded : c.isGuarded = true)
    (hout : a' <+: a) (hne : a' ≠ a) (ha : a <+: r) : ¬ b.Passes r f a' := by
  rintro ⟨d, inside, hd, rfl, hleaves⟩
  obtain ⟨between, rfl⟩ := hout
  rw [at?_append, hd, Option.bind_some] at hc
  have hbetween : between ≠ [] := by
    rintro rfl
    exact hne (List.append_nil a').symm
  have := hleaves.not_isGuarded hbetween ((List.prefix_append_right_inj a').1 ha) hc
  cases hguarded.symm.trans this

theorem passes_cons_iff {d : Block} {i : Nat} (hd : b.children[i]? = some d) :
    b.Passes r f (i :: a) ↔ ∃ r', r = i :: r' ∧ d.Passes r' f a := by
  have hat := at?_cons_of_child hd a
  constructor
  · rintro ⟨c, inside, hc, rfl, h⟩
    exact ⟨a ++ inside, rfl, c, inside, hat.symm.trans hc, rfl, h⟩
  · rintro ⟨_, rfl, c, inside, hc, rfl, h⟩
    exact ⟨c, inside, hat.trans hc, rfl, h⟩

/-- A failure that is not caught outside of a block passes through the block around it. -/
theorem Passes.around {c : Block} {i : Nat} (h : b.Passes r f (a ++ [i]))
    (hentered : b.Entered (a ++ [i])) (hc : b.at? (a ++ [i]) = some c)
    (hguarded : c.isGuarded = false) : b.Passes r f a := by
  induction a generalizing b r with
  | nil =>
    obtain _ | ⟨hd, hearlier, -⟩ := hentered
    obtain ⟨r', rfl, e, inside, he, rfl, hleaves⟩ := (passes_cons_iff hd).1 h
    rw [List.nil_append, at?_cons_of_child hd] at hc
    rw [at?, Option.some.injEq] at hc he
    subst hc he
    exact ⟨b, _, rfl, rfl, .through hd hearlier hguarded hleaves⟩
  | cons j a ih =>
    obtain _ | ⟨hd, hearlier, hinner⟩ := hentered
    obtain ⟨r', rfl, hpasses⟩ := (passes_cons_iff hd).1 h
    rw [List.cons_append, at?_cons_of_child hd] at hc
    exact (passes_cons_iff hd).2 ⟨r', rfl, ih hpasses hinner hc⟩

/-- The failures that pass through a block are those that leave it. -/
theorem exists_passes_iff {c : Block} (hc : b.at? a = some c) :
    (∃ r, b.Passes r f a) ↔ c.leaving? = some f := by
  rw [← exists_leaves_iff]
  constructor
  · rintro ⟨_, d, inside, hd, rfl, hleaves⟩
    obtain rfl := Option.some.inj (hc.symm.trans hd)
    exact ⟨inside, hleaves⟩
  · rintro ⟨inside, hleaves⟩
    exact ⟨a ++ inside, c, inside, hc, rfl, hleaves⟩

end Passing

/-! ## The answer of a run -/

section Answers

variable {α β : Type} {report : Failure → Value}

/-- What an outcome fails with. -/
def failed? : Except Failure α → Option Failure
  | .ok _ => none
  | .error f => some f

theorem failed?_eq_some_iff {outcome : Except Failure α} :
    failed? outcome = some f ↔ outcome = .error f := by
  cases outcome <;> simp [failed?]

theorem failed?_map (g : α → β) (outcome : Except Failure α) :
    failed? (outcome.map g) = failed? outcome := by
  cases outcome <;> rfl

theorem failed?_concluded (result : Value) (failure : Option Failure)
    (outcome : Except Failure (List Value)) :
    failed? (concluded result failure outcome) = (failed? outcome).or failure := by
  cases outcome with
  | error f => rfl
  | ok values => cases failure <;> rfl

/-- A block as it runs: its children come first, and what fails marks its span. -/
theorem eval_run (name : String) (attributes : List (String × Value)) (result : Value)
    (children : List Block) (failure : Option Failure) :
    (run name attributes result children failure).eval report
      = (concluded result failure (evalAll report children).1,
        .span name attributes (((failed? (evalAll report children).1).or failure).map mark)
          (evalAll report children).2) := by
  rw [eval]
  obtain ⟨_ | values, entries⟩ := evalAll report children
  · rfl
  · cases failure <;> rfl

theorem eval_guarded (body : Block) :
    (guarded body).eval report = (caught report (body.eval report).1, (body.eval report).2) := by
  rw [eval]
  obtain ⟨_ | v, entry⟩ := body.eval report <;> rfl

theorem failed?_caught (outcome : Except Failure Value) :
    failed? (caught report outcome) = none := by
  cases outcome <;> rfl

theorem evalAll_cons_of_error {b : Block} {rest : List Block} (h : (b.eval report).1 = .error f) :
    evalAll report (b :: rest) = (.error f, [(b.eval report).2]) := by
  rw [evalAll]
  split <;> simp_all

theorem evalAll_cons_of_ok {b : Block} {rest : List Block} {v : Value}
    (h : (b.eval report).1 = .ok v) : evalAll report (b :: rest)
      = ((evalAll report rest).1.map (v :: ·), (b.eval report).2 :: (evalAll report rest).2) := by
  rw [evalAll]
  split <;> simp_all

mutual

/-- A run of a block answers with the failure that its caller sees, or with a value. -/
theorem failed?_eval (report : Failure → Value) :
    ∀ b : Block, failed? (b.eval report).1 = b.escape?
  | run name attributes result children failure => by
    rw [eval_run, escape?, failed?_concluded, failed?_evalAll report children]
  | guarded body => by
    rw [eval_guarded, escape?, failed?_caught]

theorem failed?_evalAll (report : Failure → Value) :
    ∀ blocks : List Block, failed? (evalAll report blocks).1 = firstEscape? blocks
  | [] => rfl
  | b :: rest => by
    rw [firstEscape?, ← failed?_eval report b]
    cases h : (b.eval report).1 with
    | error f => rw [evalAll_cons_of_error h]; rfl
    | ok v =>
      rw [evalAll_cons_of_ok h, failed?_map, failed?_evalAll report rest]
      rfl

end

theorem completes_of_eval_eq_ok {v : Value} (h : (b.eval report).1 = .ok v) : b.Completes := by
  rw [completes_iff, ← failed?_eval report, h]
  rfl

theorem not_completes_of_eval_eq_error (h : (b.eval report).1 = .error f) : ¬ b.Completes := by
  rw [completes_iff, ← failed?_eval report, h]
  exact Option.some_ne_none f

end Answers

/-! ## The order in which blocks end -/

mutual

/-- The blocks that are entered, in the order in which they end. -/
def visited : Block → List Address
  | run _ _ _ children _ => (visitedAll children).map (fun (i, a) => i :: a) ++ [[]]
  | guarded body => visited body

/-- The blocks that are entered in a sequence, each by its position and its address from there. -/
def visitedAll : List Block → List (Nat × Address)
  | [] => []
  | b :: rest =>
    (visited b).map (0, ·) ++
      if (escape? b).isSome then [] else (visitedAll rest).map fun (i, a) => (i + 1, a)

end

section Maps

variable {α : Type} {rest : List Block}

theorem visited_eq (b : Block) :
    b.visited = (visitedAll b.children).map (fun (i, a) => i :: a) ++ [[]] := by
  induction b using induction with
  | run => rw [visited, children]
  | guarded body ih => rw [visited, children, ih]

theorem map_visited (g : Address → α) (b : Block) :
    b.visited.map g = (visitedAll b.children).map (fun (i, a) => g (i :: a)) ++ [g []] := by
  rw [visited_eq, List.map_append, List.map_map]
  rfl

theorem visitedAll_cons_of_completes (h : b.Completes) : visitedAll (b :: rest)
    = b.visited.map (0, ·) ++ (visitedAll rest).map fun (i, a) => (i + 1, a) := by
  rw [visitedAll, completes_iff.1 h]
  rfl

theorem visitedAll_cons_of_not_completes (h : ¬ b.Completes) :
    visitedAll (b :: rest) = b.visited.map (0, ·) := by
  rw [completes_iff, ← ne_eq, Option.ne_none_iff_isSome] at h
  rw [visitedAll, if_pos h, List.append_nil]

theorem map_visitedAll_of_completes (g : Nat × Address → α) (h : b.Completes) :
    (visitedAll (b :: rest)).map g
      = b.visited.map (fun a => g (0, a)) ++ (visitedAll rest).map fun (i, a) => g (i + 1, a) := by
  rw [visitedAll_cons_of_completes h, List.map_append, List.map_map, List.map_map]
  rfl

theorem map_visitedAll_of_not_completes (g : Nat × Address → α) (h : ¬ b.Completes) :
    (visitedAll (b :: rest)).map g = b.visited.map fun a => g (0, a) := by
  rw [visitedAll_cons_of_not_completes h, List.map_map]
  rfl

end Maps

theorem zero_mem_visitedAll_cons {b : Block} {rest : List Block} {a : Address} :
    (0, a) ∈ visitedAll (b :: rest) ↔ a ∈ b.visited := by
  by_cases h : b.Completes
  · simp [visitedAll_cons_of_completes h]
  · simp [visitedAll_cons_of_not_completes h]

theorem succ_mem_visitedAll_cons {b : Block} {rest : List Block} {i : Nat} {a : Address} :
    (i + 1, a) ∈ visitedAll (b :: rest) ↔ b.Completes ∧ (i, a) ∈ visitedAll rest := by
  by_cases h : b.Completes
  · simp [visitedAll_cons_of_completes h, h]
  · simp [visitedAll_cons_of_not_completes h, h]

theorem mem_visitedAll {blocks : List Block} {i : Nat} {a : Address} :
    (i, a) ∈ visitedAll blocks ↔
      ∃ c, blocks[i]? = some c ∧ (∀ d ∈ blocks.take i, d.Completes) ∧ a ∈ c.visited := by
  induction blocks generalizing i with
  | nil => simp [visitedAll]
  | cons b rest ih =>
    cases i with
    | zero => simp [zero_mem_visitedAll_cons]
    | succ i =>
      rw [succ_mem_visitedAll_cons, ih]
      simp only [List.getElem?_cons_succ, List.take_succ_cons, List.forall_mem_cons]
      constructor
      · rintro ⟨hb, c, hc, hearlier, ha⟩
        exact ⟨c, hc, ⟨hb, hearlier⟩, ha⟩
      · rintro ⟨c, hc, ⟨hb, hearlier⟩, ha⟩
        exact ⟨hb, c, hc, hearlier, ha⟩

/-- The blocks that are visited are those that are entered. -/
theorem mem_visited {a : Address} : a ∈ b.visited ↔ b.Entered a := by
  induction a generalizing b with
  | nil =>
    refine iff_of_true ?_ (.outermost b)
    rw [visited_eq]
    exact List.mem_append_right _ (List.mem_singleton_self [])
  | cons i a ih =>
    have hmem : i :: a ∈ b.visited ↔ (i, a) ∈ visitedAll b.children := by simp [visited_eq]
    rw [hmem, mem_visitedAll]
    constructor
    · rintro ⟨c, hc, hearlier, ha⟩
      exact .inner hc hearlier (ih.1 ha)
    · rintro (_ | ⟨hc, hearlier, h⟩)
      exact ⟨_, hc, hearlier, ih.2 h⟩

theorem pairwise_visitedAll {blocks : List Block}
    (h : ∀ c ∈ blocks, c.visited.Pairwise EndsBefore) :
    (visitedAll blocks).Pairwise fun x y => EndsBefore (x.1 :: x.2) (y.1 :: y.2) := by
  induction blocks with
  | nil => exact .nil
  | cons b rest ih =>
    have hfirst : (b.visited.map (0, ·)).Pairwise fun x y : Nat × Address =>
        EndsBefore (x.1 :: x.2) (y.1 :: y.2) :=
      List.pairwise_map.2 ((h b (List.mem_cons_self ..)).imp fun hab => .deeper 0 hab)
    by_cases hb : b.Completes
    · rw [visitedAll_cons_of_completes hb, List.pairwise_append]
      refine ⟨hfirst, List.pairwise_map.2 ((ih fun c hc => h c (List.mem_cons_of_mem b hc)).imp ?_),
        ?_⟩
      · rintro ⟨i, a⟩ ⟨j, a'⟩ (_ | ⟨_, _, hlt⟩ | ⟨_, hab⟩)
        · exact .earlier a a' (Nat.succ_lt_succ hlt)
        · exact .deeper (i + 1) hab
      · intro x hx y hy
        obtain ⟨a, -, rfl⟩ := List.mem_map.1 hx
        obtain ⟨⟨j, a'⟩, -, rfl⟩ := List.mem_map.1 hy
        exact .earlier a a' (Nat.succ_pos j)
    · rwa [visitedAll_cons_of_not_completes hb]

/-- Inner blocks end before those around them, and earlier ones before later ones. -/
theorem pairwise_visited (b : Block) : b.visited.Pairwise EndsBefore := by
  induction b using induction_children with
  | h b ih =>
    rw [visited_eq, List.pairwise_append, List.pairwise_map]
    refine ⟨pairwise_visitedAll ih, List.pairwise_singleton .., ?_⟩
    intro x hx y hy
    obtain ⟨⟨i, a⟩, -, rfl⟩ := List.mem_map.1 hx
    obtain rfl := List.mem_singleton.1 hy
    exact .inside i a

theorem nodup_visited (b : Block) : b.visited.Nodup := by
  refine (pairwise_visited b).imp ?_
  rintro a _ h rfl
  exact EndsBefore.irrefl a h

end Block

end SchemaVersioning
