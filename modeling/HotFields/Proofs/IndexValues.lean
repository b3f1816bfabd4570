import HotFields.Proofs.ChainComposition

namespace HotFields

/-- Pointers, arrays and vectors: every index leads to the same type. -/
def Program.Homogeneous (p : Program) (t : TypeId) : Prop :=
  (∃ pointee, p.type? t = some (.pointer pointee)) ∨
    (∃ element length, p.type? t = some (.array element length)) ∨
    ∃ element length, p.type? t = some (.vector element length)

namespace Program.Homogeneous

variable {p : Program} {t : TypeId}

theorem inner_eq (h : p.Homogeneous t) (m n : UInt64) : p.inner t m = p.inner t n := by
  rcases h with ⟨_, h⟩ | ⟨_, _, h⟩ | ⟨_, _, h⟩ <;> simp only [inner, h]

theorem structName_eq_none (h : p.Homogeneous t) : p.structName t = none := by
  rcases h with ⟨_, h⟩ | ⟨_, _, h⟩ | ⟨_, _, h⟩ <;> simp only [structName, h]

end Program.Homogeneous

namespace Chain

/-- Chains with the same operands, the base index and integers that index pointers, arrays or vectors apart. The types
are those that the first chain comes to. -/
structure AgreesWith (p : Program) (c d : Chain) : Prop where
  source : c.sourceType = d.sourceType
  length : c.indices.length = d.indices.length
  operands : ∀ k x y, 1 ≤ k → c.indices[k]? = some x → d.indices[k]? = some y →
    x = y ∨ (∃ t, c.typeAt p k = some t ∧ p.Homogeneous t) ∧ (∃ m, x = .constInt m) ∧ ∃ n, y = .constInt n

namespace AgreesWith

variable {p : Program} {c d : Chain}

/-- Two chains that agree have the same operand at a position, or constants there that do not matter to its type. -/
theorem operand_cases (agrees : AgreesWith p c d) {k : Nat} (hk : 1 ≤ k) :
    c.indices[k]? = d.indices[k]? ∨ ∃ t m n, c.typeAt p k = some t ∧ p.Homogeneous t ∧
      c.indices[k]? = some (.constInt m) ∧ d.indices[k]? = some (.constInt n) := by
  by_cases hlt : k < c.indices.length
  · have hx : c.indices[k]? = some c.indices[k] := List.getElem?_eq_getElem hlt
    have hlt' : k < d.indices.length := agrees.length ▸ hlt
    have hy : d.indices[k]? = some d.indices[k] := List.getElem?_eq_getElem hlt'
    rcases agrees.operands k _ _ hk hx hy with same | ⟨⟨t, ht, homogeneous⟩, ⟨m, hm⟩, ⟨n, hn⟩⟩
    · exact .inl (by rw [hx, hy, same])
    · exact .inr ⟨t, m, n, ht, homogeneous, hx.trans (congrArg some hm), hy.trans (congrArg some hn)⟩
  · have hge : d.indices.length ≤ k := by
      rw [← agrees.length]
      exact Nat.not_lt.mp hlt
    exact .inl (by rw [List.getElem?_eq_none (Nat.not_lt.mp hlt), List.getElem?_eq_none hge])

theorem typeAt_eq (agrees : AgreesWith p c d) : (k : Nat) → c.typeAt p k = d.typeAt p k
  | 0 => rfl
  | 1 => congrArg some agrees.source
  | k + 2 => by
    have before := agrees.typeAt_eq (k + 1)
    rw [typeAt, typeAt]
    rcases agrees.operand_cases (Nat.succ_pos k) with same | ⟨t, m, n, ht, homogeneous, hx, hy⟩
    · rw [before, same]
    · -- both operands are constant, and their values do not tell where they lead
      rw [← before, ht, hx, hy]
      exact homogeneous.inner_eq m n

/-- Where operands differ, the type has no fields to hit. -/
theorem accessesAt_eq (agrees : AgreesWith p c d) (attributeGlobals : Bool) (origin : Origin) {k : Nat}
    (hk : 1 ≤ k) :
    c.accessesAt p attributeGlobals origin k = d.accessesAt p attributeGlobals origin k := by
  have before := agrees.typeAt_eq k
  rcases agrees.operand_cases hk with same | ⟨t, m, n, ht, homogeneous, hx, hy⟩
  · rw [accessesAt, accessesAt, before, same]
  · -- no structure is indexed here, and an integer belongs to no global
    have quiet : ∀ i, stepAccesses p attributeGlobals origin t (.constInt i) i = [] := by
      intro i
      simp [stepAccesses, homogeneous.structName_eq_none, globalOwner, Program.globalType]
    simp only [accessesAt, ← before, ht, hx, hy, Program.constantIndex, quiet]

end AgreesWith

end Chain

/-- Chains that differ only in the base index and in integers that index pointers, arrays or vectors have the same
accesses. -/
theorem Chain.AgreesWith.same_events {p : Program} {c d : Chain} (agrees : c.AgreesWith p d)
    (attributeGlobals : Bool) (origin : Origin) :
    c.events p attributeGlobals origin = d.events p attributeGlobals origin := by
  rw [events_eq_flatMap, events_eq_flatMap, agrees.length]
  refine List.flatMap_congr ?_
  intro k hk
  exact agrees.accessesAt_eq attributeGlobals origin (List.mem_range'_1.mp hk).1

/-- Rows of nodes, each with a pointer to another node. -/
def nodeRows : Program where
  types := #[.int 32, .struct (some "node") [⟨0⟩, ⟨2⟩], .pointer (some ⟨1⟩), .array ⟨1⟩ 8, .vector ⟨3⟩ 4]

theorem Chain.AgreesWith.same_events_nodeRows :
    let c : Chain := ⟨⟨4⟩, [.inst ⟨0⟩, .constInt 3, .constInt 7, .constInt 1, .constInt 0, .constInt 0]⟩
    let d : Chain := ⟨⟨4⟩, [.constInt 2, .constInt 0, .constInt 9, .constInt 1, .constInt 5, .constInt 0]⟩
    c.AgreesWith nodeRows d ∧ c.events nodeRows true .address = d.events nodeRows true .address ∧
    d.events nodeRows true .address = [⟨"node", 1, .address⟩, ⟨"node", 0, .address⟩] := by
  intro c d
  have agrees : c.AgreesWith nodeRows d := by
    refine ⟨rfl, rfl, fun k x y hk hx hy => ?_⟩
    have row : nodeRows.Homogeneous ⟨4⟩ := .inr (.inr ⟨_, _, rfl⟩)
    have column : nodeRows.Homogeneous ⟨3⟩ := .inr (.inl ⟨_, _, rfl⟩)
    have pointer : nodeRows.Homogeneous ⟨2⟩ := .inl ⟨_, rfl⟩
    match k with
    | 1 => cases hx; cases hy; exact .inr ⟨⟨_, rfl, row⟩, ⟨_, rfl⟩, ⟨_, rfl⟩⟩
    | 2 => cases hx; cases hy; exact .inr ⟨⟨_, rfl, column⟩, ⟨_, rfl⟩, ⟨_, rfl⟩⟩
    | 3 => exact .inl (Option.some.inj (hx.symm.trans hy))
    | 4 => cases hx; cases hy; exact .inr ⟨⟨_, rfl, pointer⟩, ⟨_, rfl⟩, ⟨_, rfl⟩⟩
    | 5 => exact .inl (Option.some.inj (hx.symm.trans hy))
    | k + 6 => cases hx
  exact ⟨agrees, agrees.same_events true .address, by decide⟩

theorem Program.structName_eq_some_iff {p : Program} {t : TypeId} {name : String} :
    p.structName t = some name ↔ name ≠ "" ∧ ∃ fields, p.type? t = some (.struct (some name) fields) := by
  unfold structName
  split
  next stored fields ht =>
    rw [ht]
    split
    next empty => simp_all
    next filled =>
      simp only [Option.some.injEq, TypeDef.struct.injEq, exists_and_left, exists_eq', and_true]
      constructor
      · rintro rfl
        exact ⟨by simpa using filled, rfl⟩
      · exact fun h => h.2
  next unnamed =>
    simp only [reduceCtorEq, false_iff, not_and, not_exists]
    exact fun _ fields => unnamed name fields

namespace Chain

variable {p : Program} {origin : Origin}

theorem stepAccesses_false (t : TypeId) (operand : Value) (index : UInt64) :
    stepAccesses p false origin t operand index =
      (p.structName t).toList.map fun owner => ⟨owner, index, origin⟩ :=
  List.append_nil _

/-- An access comes from one operand. The operands before it lead to the structure that it indexes and have the earlier
accesses, and the operands after it have the later ones. -/
theorem accessesFrom_split {t : TypeId} {operands : List Value} {before after : List Access} {a : Access}
    (split : accessesFrom p false origin (some t) operands = before ++ a :: after) :
    ∃ xs operand rest u, operands = xs ++ operand :: rest ∧ p.Leads t xs u ∧
      p.structName u = some a.owner ∧ p.constantIndex operand = some a.field ∧ a.origin = origin ∧
      accessesFrom p false origin (some t) xs = before ∧
      accessesFrom p false origin (p.inner u a.field) rest = after := by
  induction operands generalizing t before with
  | nil => simp [accessesFrom] at split
  | cons operand rest ih =>
    cases hi : p.constantIndex operand with
    | none => simp [accessesFrom, hi] at split
    | some index =>
      rw [accessesFrom_cons hi, stepAccesses_false] at split
      -- the access comes from a later operand
      have onward : ∀ earlier, stepAccesses p false origin t operand index ++ earlier = before →
          accessesFrom p false origin (p.inner t index) rest = earlier ++ a :: after →
          ∃ xs x later u, operand :: rest = xs ++ x :: later ∧ p.Leads t xs u ∧
            p.structName u = some a.owner ∧ p.constantIndex x = some a.field ∧ a.origin = origin ∧
            accessesFrom p false origin (some t) xs = before ∧
            accessesFrom p false origin (p.inner u a.field) later = after := by
        intro earlier hbefore hrest
        cases hu : p.inner t index with
        | none => simp [hu] at hrest
        | some u =>
          rw [hu] at hrest
          obtain ⟨xs, x, later, v, rfl, leads, own, constant, same, hxs, hlater⟩ := ih hrest
          refine ⟨operand :: xs, x, later, v, rfl, .step hi hu leads, own, constant, same, ?_, hlater⟩
          rw [accessesFrom_cons hi, hu, hxs, hbefore]
      cases hs : p.structName t with
      | none =>
        rw [hs] at split
        exact onward before (by rw [stepAccesses_false, hs]; rfl) split
      | some owner =>
        rw [hs] at split
        cases before with
        | nil =>
          obtain ⟨rfl, hafter⟩ := List.cons.inj split
          exact ⟨[], operand, rest, t, rfl, .stay t, hs, hi, rfl, rfl, hafter⟩
        | cons b earlier =>
          obtain ⟨rfl, hrest⟩ := List.cons.inj split
          exact onward earlier (by rw [stepAccesses_false, hs]; rfl) hrest

end Chain

/-- Where global operands are not attributed, every access of a chain comes from an index of a named structure of the
program. It names a field that the structure has, or it is the last access, and no operand that may follow adds another
one. -/
theorem Chain.events_beyond_fields {p : Program} {origin : Origin} {chain : Chain}
    {before after : List Access} {a : Access}
    (split : chain.events p false origin = before ++ a :: after) :
    ∃ base xs operand rest t fields, chain.indices = base :: xs ++ operand :: rest ∧
      p.Leads chain.sourceType xs t ∧ p.type? t = some (.struct (some a.owner) fields) ∧ a.owner ≠ "" ∧
      p.constantIndex operand = some a.field ∧ a.origin = origin ∧
      events p false origin ⟨chain.sourceType, base :: xs⟩ = before ∧
      (a.field.toNat < fields.length ∨
        after = [] ∧ ∀ ys,
          events p false origin ⟨chain.sourceType, base :: xs ++ operand :: ys⟩ = before ++ [a]) := by
  obtain ⟨source, indices⟩ := chain
  cases indices with
  | nil => simp [events_eq_accessesFrom, accessesFrom] at split
  | cons base operands =>
    rw [events_cons] at split
    obtain ⟨xs, operand, rest, t, rfl, leads, own, constant, same, hbefore, hafter⟩ :=
      accessesFrom_split split
    obtain ⟨named, fields, ht⟩ := Program.structName_eq_some_iff.mp own
    refine ⟨base, xs, operand, rest, t, fields, rfl, leads, ht, named, constant, same,
      (events_cons source base xs).trans hbefore, ?_⟩
    by_cases inside : a.field.toNat < fields.length
    · exact .inl inside
    · -- the cursor is lost with this operand, so what comes after it is not looked at
      have nowhere : p.inner t a.field = none := by
        simp only [Program.inner, ht]
        exact List.getElem?_eq_none (Nat.not_lt.mp inside)
      rw [nowhere, accessesFrom_none] at hafter
      refine .inr ⟨hafter.symm, fun ys => ?_⟩
      have last : stepAccesses p false origin t operand a.field = [a] := by
        rw [stepAccesses_false, own, ← same]
        rfl
      rw [List.cons_append, events_cons, accessesFrom_append_of_leads leads, hbefore,
        accessesFrom_cons constant, last, nowhere, accessesFrom_none]
      rfl

/-- The first access is to the second field of the outer structure. The second one is to a field that pairs do not
have. -/
theorem Chain.events_beyond_fields_pairsInside :
    let chain : Chain := ⟨⟨3⟩, [.constInt 0, .constInt 1, .constInt 5, .constInt 7, .constInt 0]⟩
    let outer : Access := ⟨"outer", 1, .load⟩
    let pair : Access := ⟨"pair", 7, .load⟩
    chain.events pairsInside false .load = [outer, pair] ∧
    (∃ t fields, pairsInside.type? t = some (.struct (some "outer") fields) ∧ 1 < fields.length) ∧
    ∃ xs operand, ∀ ys, events pairsInside false .load ⟨⟨3⟩, xs ++ operand :: ys⟩ = [outer, pair] := by
  intro chain outer pair
  have split : chain.events pairsInside false .load = [outer, pair] := by decide
  have first : chain.events pairsInside false .load = [] ++ outer :: [pair] := split
  have last : chain.events pairsInside false .load = [outer] ++ pair :: [] := split
  refine ⟨split, ?_, ?_⟩
  · obtain ⟨_, _, _, _, t, fields, _, _, ht, _, _, _, _, inside | ⟨nothing, _⟩⟩ :=
      Chain.events_beyond_fields first
    · exact ⟨t, fields, ht, inside⟩
    · cases nothing
  · obtain ⟨base, xs, operand, _, t, fields, _, _, ht, _, _, _, _, inside | ⟨_, ended⟩⟩ :=
      Chain.events_beyond_fields last
    · have hm : TypeDef.struct (some "pair") fields ∈ pairsInside.types := Array.mem_of_getElem? ht
      have hfields : fields = [⟨0⟩, ⟨0⟩] := by simpa [pairsInside] using hm
      subst hfields
      exact absurd inside (by decide)
    · exact ⟨base :: xs, operand, ended⟩

end HotFields
