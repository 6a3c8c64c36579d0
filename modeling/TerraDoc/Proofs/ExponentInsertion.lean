import TerraDoc.Proofs.ExponentLockstep

/-!
What the normaliser makes of a source: where the points and zeros stand that it adds, and what it
makes of a source without them.
-/

namespace TerraDoc.Hcl.Exponent

variable {s : State} {c : Char} {short long text source : List Char}

/-- The positions of the points that are added to a text, in the text with them. -/
def insertionsFrom (s : State) (position : Nat) : List Char → List Nat
  | [] => []
  | c :: rest =>
      let (next, bare) := step s c rest
      if bare then position :: insertionsFrom next (position + 3) rest
      else insertionsFrom next (position + 1) rest

/-- The positions of the added points in a normalised source. -/
def insertions (source : List Char) : List Nat :=
  (positions source).mapIdx fun earlier position => position + 2 * earlier

theorem insertionsFrom_eq (s : State) (p earlier : Nat) (source : List Char) :
    insertionsFrom s (p + 2 * earlier) source =
      (positionsFrom s p source).mapIdx fun i position => position + 2 * (earlier + i) := by
  induction source generalizing s p earlier with
  | nil => rfl
  | cons c rest ih =>
    cases taken : step s c rest with
    | mk next bare =>
      cases bare with
      | true =>
        have later := ih next (p + 1) (earlier + 1)
        rw [show p + 1 + 2 * (earlier + 1) = p + 2 * earlier + 3 by omega] at later
        simp only [insertionsFrom, positionsFrom, taken, if_true, List.mapIdx_cons, later,
          Nat.add_zero, Nat.add_right_comm earlier, ← Nat.add_assoc earlier]
      | false =>
        have later := ih next (p + 1) earlier
        rw [show p + 1 + 2 * earlier = p + 2 * earlier + 1 by omega] at later
        simp [insertionsFrom, positionsFrom, taken, later]

theorem insertions_eq (source : List Char) : insertions source = insertionsFrom .initial 0 source := by
  have start := insertionsFrom_eq .initial 0 0 source
  simpa [insertions, positions] using start.symm

theorem mark_not_digit (mark : isMark c = true) : c.isDigit = false := by
  rcases isMark_cases mark with rfl | rfl <;> rfl

theorem step_bare (digits : s.phase = .digits false) (mark : isMark c = true)
    (follows : powerFollows text = true) :
    step s c text = ({ s with
      phase := if signFollows text = true then .skip 1 .power else .power, previous := c }, true) := by
  simp [step, phaseStep, digits, mark, follows, mark_not_digit mark, State.goOn]

theorem bare_cases (bare : (step s c text).2 = true) :
    s.phase = .digits false ∧ isMark c = true ∧ powerFollows text = true := by
  by_cases digits : s.phase = .digits false
  · refine ⟨digits, ?_⟩
    simp only [step, phaseStep, digits] at bare
    repeat' split at bare
    all_goals simp_all
  · simp only [step, phaseStep] at bare
    repeat' split at bare
    all_goals simp_all

/-- The scan of a point and a zero before an exponent. -/
theorem scans_insertion (digits : s.phase = .digits false) (mark : isMark c = true)
    (follows : powerFollows text = true) :
    Scans Unmarked s ['.', '0', c] text (step s c text).1 := by
  have point : step s '.' ('0' :: c :: text) =
      ({ s with phase := .fraction, previous := '.' }, false) := by
    rw [step, @phaseStep_point _ _ ('0' :: c :: text) digits rfl]
    rfl
  have zero : step { s with phase := .fraction, previous := '.' } '0' (c :: text) =
      ({ s with phase := .fraction, previous := '0' }, false) := rfl
  have power : step { s with phase := .fraction, previous := '0' } c text =
      ((step s c text).1, false) := by
    rw [step_bare digits mark follows]
    simp [step, phaseStep, mark, mark_not_digit mark, State.goOn]
  refine .cons (by simp [Unmarked, point]) ?_
  simp only [List.cons_append, List.nil_append, point]
  refine .cons (by simp [Unmarked, zero]) ?_
  simp only [List.cons_append, List.nil_append, zero]
  refine .cons (by simp [Unmarked, power]) ?_
  simp only [List.nil_append, power]
  exact .nil _ _

theorem step_bare_similar (similar : Similar short long) (either : text = short ∨ text = long)
    (digits : s.phase = .digits false) (mark : isMark c = true)
    (follows : powerFollows text = true) :
    (powerFollows short = true ∧ step s c short = step s c text) ∧
      powerFollows long = true ∧ step s c long = step s c text := by
  have power := similar.powerFollows_eq
  have sign := similar.signFollows_eq
  rcases either with rfl | rfl
  · have inLong := power ▸ follows
    refine ⟨⟨follows, rfl⟩, inLong, ?_⟩
    rw [step_bare digits mark inLong, step_bare digits mark follows, sign]
  · have inShort := power ▸ follows
    refine ⟨⟨inShort, ?_⟩, follows, rfl⟩
    rw [step_bare digits mark inShort, step_bare digits mark follows, sign]

theorem Elides.normalizeFrom_eq (elides : Elides s short long) : normalizeFrom s short = long := by
  induction elides with
  | nil => rfl
  | @keep s c short long text either unmarked opened later ih =>
    have same := (step_eq_of_elides either opened later).1
    have kept : (step s c text).2 = false := unmarked
    rw [normalizeFrom, same]
    simp [kept, ih]
  | @insert s c short long text either digits mark follows later ih =>
    have same := (step_bare_similar later.similar either digits mark follows).1.2
    have inserted : (step s c text).2 = true := by rw [step_bare digits mark follows]
    rw [normalizeFrom, same]
    simp [inserted, ih]

/-- A text that has all its points and zeros stays as it is: where the scan of the shorter one adds
them, the scan of the longer one goes past them and on from the same state. -/
theorem Elides.normalizeFrom_long (elides : Elides s short long) : normalizeFrom s long = long := by
  induction elides with
  | nil => rfl
  | @keep s c short long text either unmarked opened later ih =>
    have same := (step_eq_of_elides either opened later).2
    have kept : (step s c text).2 = false := unmarked
    rw [normalizeFrom, same]
    simp [kept, ih]
  | @insert s c short long text either digits mark follows later ih =>
    obtain ⟨-, inLong, same⟩ := step_bare_similar later.similar either digits mark follows
    have scanned := scans_insertion digits mark inLong
    rw [same] at scanned
    have passed := scanned.normalizeFrom
    rwa [ih] at passed

theorem normalizeFrom_elides (s : State) (source : List Char) :
    Elides s source (normalizeFrom s source) := by
  induction source generalizing s with
  | nil => exact .nil s
  | cons c rest ih =>
    have later := ih (step s c rest).1
    show Elides s (c :: rest) (if (step s c rest).2 = true
      then '.' :: '0' :: c :: normalizeFrom (step s c rest).1 rest
      else c :: normalizeFrom (step s c rest).1 rest)
    by_cases bare : (step s c rest).2 = true
    · obtain ⟨digits, mark, follows⟩ := bare_cases bare
      rw [if_pos bare]
      exact .insert rest (.inl rfl) digits mark follows later
    · rw [if_neg bare]
      exact .keep rest (.inl rfl) (by simpa [Unmarked] using bare) (.inl rfl) later

/-- A second normalisation changes nothing, whatever the source. -/
theorem normalize_idempotent (source : List Char) :
    normalize (normalize source) = normalize source :=
  (normalizeFrom_elides .initial source).normalizeFrom_long

/-- A chain of literals after a quote that nothing closes. -/
example : normalize "1e3.5e2 \"\n2e1".toList = "1.0e3.5e2 \"\n2.0e1".toList := by
  decide +kernel

/-- What the scan of a normalised source says about the source: the rest of it has no bare
exponent, and the added points are points of numbers. -/
theorem Elides.occurs {p : Nat} (elides : Elides (stateAt source p) short (source.drop p)) :
    (∀ i, p ≤ i → i < source.length → Occurs Unmarked source i) ∧
      ∀ q ∈ insertionsFrom (stateAt source p) p short,
        Occurs Point source q ∧ ['.', '0'] <+: source.drop q := by
  generalize state : stateAt source p = s at elides
  generalize split : source.drop p = long at elides
  induction elides generalizing p with
  | nil =>
    have ended := List.drop_eq_nil_iff.mp split
    exact ⟨fun i start inside => by omega, by simp [insertionsFrom]⟩
  | @keep s c short long text either unmarked opened later ih =>
    obtain ⟨inShort, inLong⟩ := step_eq_of_elides either opened later
    have moved : stateAt source (p + 1) = (step s c text).1 := by
      rw [← inLong, ← state]
      exact stateAt_succ split
    have left : source.drop (p + 1) = long := drop_of_split [c] split
    obtain ⟨normal, points⟩ := ih moved left
    have kept : (step s c text).2 = false := unmarked
    refine ⟨fun i start inside => ?_, ?_⟩
    · by_cases here : i = p
      · subst here
        refine ⟨c, long, split, ?_⟩
        rw [Unmarked, state, inLong, kept]
      · exact normal i (by omega) inside
    · simp only [insertionsFrom, inShort, kept]
      simpa [moved] using points
  | @insert s c short long text either digits mark follows later ih =>
    obtain ⟨⟨-, inShort⟩, inLong, same⟩ :=
      step_bare_similar later.similar either digits mark follows
    have scanned := scans_insertion digits mark inLong
    rw [same] at scanned
    subst state
    have moved : stateAt source (p + 3) = (step (stateAt source p) c text).1 :=
      scanned.stateAt_eq split
    have left : source.drop (p + 3) = long := drop_of_split ['.', '0', c] split
    obtain ⟨normal, points⟩ := ih moved left
    refine ⟨fun i start inside => ?_, ?_⟩
    · by_cases here : i < p + 3
      · exact scanned.occurs split start here
      · exact normal i (by omega) inside
    · have inserted : (step (stateAt source p) c text).2 = true := by
        rw [step_bare digits mark follows]
      simp only [insertionsFrom, inShort, inserted, if_true]
      intro q member
      rcases List.mem_cons.mp member with rfl | later
      · exact ⟨⟨'.', '0' :: c :: long, split, digits, rfl, rfl⟩, ⟨c :: long, split.symm⟩⟩
      · exact points q later

theorem normalize_occurs (source : List Char) :
    (∀ i < (normalize source).length, Occurs Unmarked (normalize source) i) ∧
      ∀ q ∈ insertions source, Occurs Point (normalize source) q ∧
        ['.', '0'] <+: (normalize source).drop q := by
  obtain ⟨normal, points⟩ := @Elides.occurs source (normalize source) 0
    (normalizeFrom_elides .initial source)
  rw [insertions_eq]
  exact ⟨fun i => normal i (Nat.zero_le i), points⟩

/-- A piece of a source without a point of a number is the same in both texts. -/
theorem Elides.split {piece : List Char}
    (elides : Elides (stateAt source p) short (piece ++ long))
    (split : source.drop p = piece ++ long)
    (pointless : ∀ i, p ≤ i → i < p + piece.length → ¬ Occurs Point source i) :
    ∃ later, short = piece ++ later ∧ Elides (stateAt source (p + piece.length)) later long ∧
      insertionsFrom (stateAt source p) p short =
        insertionsFrom (stateAt source (p + piece.length)) (p + piece.length) later := by
  induction piece generalizing p short with
  | nil => exact ⟨short, rfl, elides, rfl⟩
  | cons c piece ih =>
    generalize whole : c :: piece ++ long = all at elides
    cases elides with
    | nil => cases whole
    | @keep _ d short _ text either unmarked opened later =>
      obtain ⟨rfl, rfl⟩ := List.cons.inj whole
      obtain ⟨inShort, inLong⟩ := step_eq_of_elides either opened later
      have moved : stateAt source (p + 1) = (step (stateAt source p) c text).1 := by
        rw [← inLong]
        exact stateAt_succ split
      rw [← moved] at later
      obtain ⟨rest, rfl, after, same⟩ := ih later (drop_of_split [c] split) fun i start before =>
        pointless i (Nat.le_of_succ_le start) (by rw [List.length_cons]; omega)
      have kept : (step (stateAt source p) c text).2 = false := unmarked
      rw [List.length_cons, Nat.add_comm piece.length, ← Nat.add_assoc]
      refine ⟨rest, rfl, after, ?_⟩
      rw [← same]
      simp [insertionsFrom, inShort, kept, moved]
    | insert text either digits mark follows later =>
      refine absurd ?_ (pointless p (Nat.le_refl _) (by simp))
      exact ⟨'.', _, split.trans whole, digits, rfl, rfl⟩

theorem le_of_insertionsFrom {p q : Nat} (member : q ∈ insertionsFrom s p text) : p ≤ q := by
  induction text generalizing s p with
  | nil => cases member
  | cons c rest ih =>
    unfold insertionsFrom at member
    cases taken : step s c rest with
    | mk next bare =>
      cases bare with
      | true =>
        simp only [taken, if_true, List.mem_cons] at member
        rcases member with rfl | later
        · exact le_rfl
        · have after := ih later
          omega
      | false =>
        have after := ih (by simpa [taken] using member)
        omega

/-- Up to the first addition a text stays as it is. -/
theorem take_normalizeFrom {p count : Nat}
    (clear : ∀ q ∈ insertionsFrom s p text, p + count ≤ q) :
    (normalizeFrom s text).take count = text.take count := by
  induction text generalizing s p count with
  | nil => rfl
  | cons c rest ih =>
    cases count with
    | zero => rfl
    | succ count =>
      cases taken : step s c rest with
      | mk next bare =>
        cases bare with
        | true =>
          have first := clear p (by simp [insertionsFrom, taken])
          omega
        | false =>
          have later := @ih next (p + 1) count fun q member => by
            have after := clear q (by simpa [insertionsFrom, taken] using member)
            omega
          simp [normalizeFrom, taken, later]

theorem countP_insertionsFrom {p start : Nat} (after : start ≤ p) :
    (insertionsFrom s p text).countP (· < start) = 0 := by
  rw [List.countP_eq_zero]
  intro q member
  have later := le_of_insertionsFrom member
  simp only [decide_eq_true_eq]
  omega

/-- A stretch of a normalised text to which nothing is added stands in the text itself, before it
by what is added before it. -/
theorem take_drop_normalizeFrom {p start count : Nat} (passed : p ≤ start)
    (clear : ∀ q ∈ insertionsFrom s p text, q + 1 < start ∨ start + count ≤ q) :
    ∃ place, p + place + 2 * (insertionsFrom s p text).countP (· < start) = start ∧
      ((normalizeFrom s text).drop (start - p)).take count = (text.drop place).take count := by
  induction text generalizing s p with
  | nil => exact ⟨start - p, by simp [insertionsFrom]; omega, by simp [normalizeFrom]⟩
  | cons c rest ih =>
    by_cases here : start = p
    · subst here
      refine ⟨0, by simp [countP_insertionsFrom], ?_⟩
      rw [Nat.sub_self, List.drop_zero, List.drop_zero]
      refine take_normalizeFrom (p := start) fun q member => (clear q member).resolve_left ?_
      have later := le_of_insertionsFrom member
      omega
    · cases taken : step s c rest with
      | mk next bare =>
        cases bare with
        | true =>
          have first := clear p (by simp [insertionsFrom, taken])
          have others : ∀ q ∈ insertionsFrom next (p + 3) rest, q + 1 < start ∨ start + count ≤ q :=
            fun q member => clear q (by simp [insertionsFrom, taken, member])
          have counted : (insertionsFrom s p (c :: rest)).countP (· < start) =
              (insertionsFrom next (p + 3) rest).countP (· < start) + 1 := by
            have before : p < start := by omega
            simp [insertionsFrom, taken, before]
          rw [counted]
          by_cases mark : start = p + 2
          · subst mark
            refine ⟨0, by rw [countP_insertionsFrom (Nat.le_succ _)], ?_⟩
            rw [show p + 2 - p = 2 by omega, List.drop_zero]
            cases count with
            | zero => rfl
            | succ count =>
              have same := @take_normalizeFrom next rest (p + 3) count fun q member => by
                have later := le_of_insertionsFrom member
                rcases others q member with before | after <;> omega
              simp [normalizeFrom, taken, same]
          · obtain ⟨place, position, same⟩ := ih (s := next) (by omega) others
            refine ⟨place + 1, by omega, ?_⟩
            rw [List.drop_succ_cons, ← same, show start - p = start - (p + 3) + 3 by omega]
            simp [normalizeFrom, taken]
        | false =>
          have others : ∀ q ∈ insertionsFrom next (p + 1) rest, q + 1 < start ∨ start + count ≤ q :=
            fun q member => clear q (by simpa [insertionsFrom, taken] using member)
          obtain ⟨place, position, same⟩ := ih (s := next) (by omega) others
          refine ⟨place + 1, ?_, ?_⟩
          · simp only [insertionsFrom, taken]
            simp only [Bool.false_eq_true, if_false]
            omega
          · rw [List.drop_succ_cons, ← same, show start - p = start - (p + 1) + 1 by omega]
            simp [normalizeFrom, taken]

end TerraDoc.Hcl.Exponent
