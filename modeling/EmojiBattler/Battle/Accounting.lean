import EmojiBattler.Battle.Organizer

/-! # What the battles of a turn cost

The losses of a turn in terms of the emos that survive its marches. -/

namespace EmojiBattler.Mtc

open EmojiBattler.Emo Battle CallMachine

variable {env : Env}

/-! ## Duels -/

/-- One side of a battle: its grade and its emos. -/
structure FightingSide where
  grade : Nat
  entries : List (Nat × Attributes)

/-- What a side loses to a rival of the grade with these survivors. -/
def lossTo (env : Env) (grade : Nat) (survivors : List BattleEmo) : Nat :=
  if survivors = [] then 0 else grade + gradeSum env survivors

/-- The march between the emos of two sides ends with these survivors. -/
structure Fought (env : Env) (seed : Nat) (entries0 entries1 : List (Nat × Attributes))
    (survivors0 survivors1 : List BattleEmo) : Prop where
  marched : ∃ generatedIds battleEmos0 battleEmos1 next last final,
    buildBattleEmos env entries0 generatedIds = .ok (battleEmos0, next) ∧
    buildBattleEmos env entries1 next = .ok (battleEmos1, last) ∧
    Returns (perform env) (marchStart env battleEmos0 battleEmos1 seed last) final ∧
    final.getBoard .zero = survivors0 ∧ final.getBoard .one = survivors1
  decided : survivors0 = [] ∨ survivors1 = []

/-- A battle between two sides and what each of them loses.  The additions
that compute the losses fit `u8`. -/
def Duel (env : Env) (seed : Nat) (side0 side1 : FightingSide) (loss0 loss1 : Nat) :
    Prop :=
  ∃ survivors0 survivors1,
    Fought env seed side0.entries side1.entries survivors0 survivors1 ∧
    loss0 = lossTo env side1.grade survivors1 ∧ loss1 = lossTo env side0.grade survivors0 ∧
    side0.grade + gradeSum env survivors0 ≤ u8Max ∧
    side1.grade + gradeSum env survivors1 ≤ u8Max

/-- Only one side loses. -/
theorem Duel.one_loses {seed : Nat} {side0 side1 : FightingSide} {loss0 loss1 : Nat}
    (duel : Duel env seed side0 side1 loss0 loss1) : loss0 = 0 ∨ loss1 = 0 := by
  obtain ⟨survivors0, survivors1, fought, rfl, rfl, _, _⟩ := duel
  rcases fought.decided with rfl | rfl
  · exact .inr rfl
  · exact .inl rfl

theorem buildBattleEmos_length {entries : List (Nat × Attributes)} {generatedIds last : Nat}
    {battleEmos : List BattleEmo}
    (built : buildBattleEmos env entries generatedIds = .ok (battleEmos, last)) :
    battleEmos.length = entries.length := by
  induction entries generalizing generatedIds battleEmos with
  | nil =>
      cases built
      rfl
  | cons entry rest ih =>
      obtain ⟨baseId, attributes⟩ := entry
      simp only [buildBattleEmos, Result.bind_eq_ok_iff, Result.pure_eq_ok_iff,
        Prod.mk.injEq] at built
      obtain ⟨base, _, ⟨emos, _⟩, built, rfl, rfl⟩ := built
      rw [List.length_cons, List.length_cons, ih built]

/-- The damage of a march within the capacity is the loss, without overflow. -/
theorem damageHealth_eq {grade health result : Nat} {survivors : List BattleEmo}
    (lower : survivors.length ≤ gradeSum env survivors)
    (damaged : damageHealth (gradeSum env survivors) grade health = .ok result) :
    result = health - lossTo env grade survivors := by
  unfold damageHealth at damaged
  by_cases empty : survivors = []
  · subst empty
    cases damaged
    rfl
  · have positive : 0 < gradeSum env survivors :=
      Nat.lt_of_lt_of_le (List.length_pos_of_ne_nil empty) lower
    rw [if_pos positive] at damaged
    simp only [Result.bind_eq_ok_iff, addU8_eq_ok_iff, Result.pure_eq_ok_iff] at damaged
    obtain ⟨_, ⟨_, rfl⟩, rfl⟩ := damaged
    rw [lossTo, if_neg empty, Nat.add_comm]

/-- A ghost after a loss: a retired one stays as it is, an active one that has
nothing left retires. -/
def GhostState.afterLoss (turn loss : Nat) : GhostState → GhostState
  | .active health => if health ≤ loss then .retired turn else .active (health - loss)
  | .retired finalTurn => .retired finalTurn

theorem damageGhostHealth_eq {grade turn : Nat} {survivors : List BattleEmo}
    {state result : GhostState} (lower : survivors.length ≤ gradeSum env survivors)
    (damaged : damageGhostHealth (gradeSum env survivors) grade state turn = .ok result) :
    result = state.afterLoss turn (lossTo env grade survivors) := by
  cases state with
  | retired finalTurn =>
      cases damaged
      rfl
  | active health =>
      simp only [damageGhostHealth, Result.bind_eq_ok_iff, Result.pure_eq_ok_iff] at damaged
      obtain ⟨left, damaged, rfl⟩ := damaged
      rw [damageHealth_eq lower damaged, GhostState.afterLoss]
      simp only [Nat.sub_eq_zero_iff_le]

/-! ## The conditions of a turn -/

abbrev Graded (grade : Nat) : Prop := 1 ≤ grade ∧ grade ≤ 6

/-- The history of a ghost: boards within the capacity, and grades. -/
def GradedHistory (history : List GradeAndGhostBoard) : Prop :=
  ∀ entry ∈ history, Graded entry.grade ∧ entry.board.length ≤ boardEmoMaxCount

theorem getGradeAndGhostBoard_graded {history : List GradeAndGhostBoard} {state : GhostState}
    {turn : Nat} {entry : GradeAndGhostBoard} (graded : GradedHistory history)
    (found : getGradeAndGhostBoard history state turn = .ok entry) :
    Graded entry.grade ∧ entry.board.length ≤ boardEmoMaxCount := by
  simp only [getGradeAndGhostBoard] at found
  split at found
  · cases found
    exact ⟨⟨Nat.le_refl 1, by decide⟩, Nat.zero_le _⟩
  · split at found
    · simp only [Result.bind_eq_ok_iff, okOr_eq_ok_iff] at found
      obtain ⟨_, _, present⟩ := found
      exact graded entry (List.mem_of_getElem? present)
    · exact graded entry (List.mem_of_getElem? (okOr_eq_ok_iff.mp found))

/-- A march between two built boards is fought to an end. -/
theorem fought_of_march {fuel seed generatedIds next last grades0 grades1 : Nat}
    {entries0 entries1 : List (Nat × Attributes)} {battleEmos0 battleEmos1 : List BattleEmo}
    {state : St env} (graded : GradedBases env.emoBases)
    (capacity0 : entries0.length ≤ boardEmoMaxCount)
    (capacity1 : entries1.length ≤ boardEmoMaxCount)
    (built0 : buildBattleEmos env entries0 generatedIds = .ok (battleEmos0, next))
    (built1 : buildBattleEmos env entries1 next = .ok (battleEmos1, last))
    (marched : march env fuel battleEmos0 battleEmos1 seed last =
      pure (grades0, grades1, state)) :
    ∃ survivors0 survivors1, Fought env seed entries0 entries1 survivors0 survivors1 ∧
      grades0 = gradeSum env survivors0 ∧ grades1 = gradeSum env survivors1 ∧
      (survivors0.length ≤ gradeSum env survivors0 ∧ gradeSum env survivors0 ≤ 42) ∧
      (survivors1.length ≤ gradeSum env survivors1 ∧ gradeSum env survivors1 ≤ 42) := by
  rw [← buildBattleEmos_length built0] at capacity0
  rw [← buildBattleEmos_length built1] at capacity1
  obtain ⟨returned, decided, total0, total1, bounds⟩ :=
    march_returns graded capacity0 capacity1 marched
  exact ⟨_, _, ⟨⟨_, _, _, _, _, _, built0, built1, returned, rfl, rfl⟩, decided⟩, total0, total1,
    bounds .zero, bounds .one⟩

/-- Grades and sums of grades fit `u8`. -/
theorem noOverflow {grade sum : Nat} (graded : Graded grade) (bound : sum ≤ 42) :
    grade + sum ≤ u8Max := by
  have := graded.2
  unfold u8Max
  omega

/-! ## The two kinds of battles -/

/-- The player against a ghost. -/
theorem battlePvg_duel {fuel grade health : Nat} {board : Board} {state : GhostState}
    {history : List GradeAndGhostBoard} {turn seed generatedIds health' last : Nat}
    {state' : GhostState} (bases : GradedBases env.emoBases)
    (capacity : board.length ≤ boardEmoMaxCount) (graded : Graded grade)
    (histories : GradedHistory history)
    (battled : battlePvg env fuel grade health board state history turn seed generatedIds =
      pure (health', state', last)) :
    ∃ entry loss ghostLoss, getGradeAndGhostBoard history state turn = .ok entry ∧
      Duel env seed ⟨grade, boardEntries board⟩ ⟨entry.grade, ghostBoardEntries entry.board⟩
        loss ghostLoss ∧
      health' = health - loss ∧ state' = state.afterLoss turn ghostLoss := by
  simp only [battlePvg, marchPvg, Fueled.bind_eq_pure_iff, Fueled.of_eq_pure_iff,
    Fueled.pure_eq_pure_iff, Prod.mk.injEq] at battled
  obtain ⟨entry, found, ⟨grades0, grades1, final⟩, ⟨⟨emos0, next⟩, built0, ⟨emos1, _⟩, built1,
    marched⟩, _, ghostDamaged, _, damaged, rfl, rfl, _⟩ := battled
  obtain ⟨entryGraded, entryCapacity⟩ := getGradeAndGhostBoard_graded histories found
  obtain ⟨survivors, ghostSurvivors, fought, rfl, rfl, bounds, ghostBounds⟩ :=
    fought_of_march bases (by simpa [boardEntries] using capacity)
      (by simpa [ghostBoardEntries] using entryCapacity) built0 built1 marched
  exact ⟨entry, _, _, found, ⟨survivors, ghostSurvivors, fought, rfl, rfl,
    noOverflow graded bounds.2, noOverflow entryGraded ghostBounds.2⟩,
    damageHealth_eq ghostBounds.1 damaged, damageGhostHealth_eq bounds.1 ghostDamaged⟩

/-- Two ghosts against each other. -/
theorem battleGvg_duel {fuel : Nat} {state0 state1 : GhostState}
    {history0 history1 : List GradeAndGhostBoard} {turn seed generatedIds last : Nat}
    {state0' state1' : GhostState} (bases : GradedBases env.emoBases)
    (histories0 : GradedHistory history0) (histories1 : GradedHistory history1)
    (battled : battleGvg env fuel state0 history0 state1 history1 turn seed generatedIds =
      pure (state0', state1', last)) :
    ∃ entry0 entry1 loss0 loss1, getGradeAndGhostBoard history0 state0 turn = .ok entry0 ∧
      getGradeAndGhostBoard history1 state1 turn = .ok entry1 ∧
      Duel env seed ⟨entry0.grade, ghostBoardEntries entry0.board⟩
        ⟨entry1.grade, ghostBoardEntries entry1.board⟩ loss0 loss1 ∧
      state0' = state0.afterLoss turn loss0 ∧ state1' = state1.afterLoss turn loss1 := by
  simp only [battleGvg, marchGvg, Fueled.bind_eq_pure_iff, Fueled.of_eq_pure_iff,
    Fueled.pure_eq_pure_iff, Prod.mk.injEq] at battled
  obtain ⟨entry0, found0, entry1, found1, ⟨grades0, grades1, final⟩, ⟨⟨emos0, next⟩, built0,
    ⟨emos1, _⟩, built1, marched⟩, _, damaged0, _, damaged1, rfl, rfl, _⟩ := battled
  obtain ⟨graded0, capacity0⟩ := getGradeAndGhostBoard_graded histories0 found0
  obtain ⟨graded1, capacity1⟩ := getGradeAndGhostBoard_graded histories1 found1
  obtain ⟨survivors0, survivors1, fought, rfl, rfl, bounds0, bounds1⟩ :=
    fought_of_march bases (by simpa [ghostBoardEntries] using capacity0)
      (by simpa [ghostBoardEntries] using capacity1) built0 built1 marched
  exact ⟨entry0, entry1, _, _, found0, found1, ⟨survivors0, survivors1, fought, rfl, rfl,
    noOverflow graded0 bounds0.2, noOverflow graded1 bounds1.2⟩,
    damageGhostHealth_eq bounds1.1 damaged0, damageGhostHealth_eq bounds0.1 damaged1⟩

/-! ## The final place -/

theorem countAhead {preHealth start : Nat} {states : List (GhostState × GhostState)}
    (small : start + states.length ≤ u8Max) :
    states.foldlM (fun place states =>
      if isAhead preHealth states then addU8 place 1 else pure place) start =
      .ok (start + (states.filter (isAhead preHealth)).length) := by
  induction states generalizing start with
  | nil => rfl
  | cons entry rest ih =>
      rw [List.length_cons] at small
      rw [List.foldlM_cons, List.filter_cons]
      cases isAhead preHealth entry with
      | true =>
          have step : addU8 start 1 = .ok (start + 1) :=
            addU8_eq_ok_iff.mpr ⟨by omega, rfl⟩
          simp only [if_true, step, List.length_cons]
          rw [show start + ((rest.filter (isAhead preHealth)).length + 1) =
            start + 1 + (rest.filter (isAhead preHealth)).length by omega]
          exact ih (by omega)
      | false =>
          simp only [Bool.false_eq_true, if_false]
          exact ih (by omega)

/-- The place of a player who still has a ghost against it is behind all ghosts
that are active, and behind those that retired in the same turn with more
health than it had. -/
theorem calcFinalPlace_eq {health preHealth : Nat} {states preStates : List GhostState}
    (few : states.length ≤ 254) :
    calcFinalPlace health preHealth states preStates =
      .ok (if states.all fun state => !state.isActive then some 1
        else if health = 0 then
          some (1 + ((states.zip preStates).filter (isAhead preHealth)).length)
        else none) := by
  have small : 1 + (states.zip preStates).length ≤ u8Max := by
    rw [List.length_zip]
    unfold u8Max
    omega
  unfold calcFinalPlace
  dsimp only
  cases states.all fun state => !state.isActive with
  | true => simp
  | false =>
      by_cases zero : health = 0
      · simp [zero, countAhead small]
      · simp [zero]

/-! ## A turn -/

/-- What a turn starts from. -/
structure TurnReady (env : Env) (board : Board) (health : Nat)
    (ghostStates : List GhostState) (grade : Nat) (ghosts : List Ghost)
    (battleGhostIndex : Nat) : Prop where
  bases : GradedBases env.emoBases
  capacity : board.length ≤ boardEmoMaxCount
  alive : 1 ≤ health
  threeStates : ghostStates.length = 3
  activeAlive : ∀ ghostHealth, GhostState.active ghostHealth ∈ ghostStates → 1 ≤ ghostHealth
  graded : Graded grade
  threeGhosts : ghosts.length = 3
  histories : ∀ ghost ∈ ghosts, GradedHistory ghost.history
  battled : ∃ ghostHealth,
    ghostStates[battleGhostIndex]? = some (GhostState.active ghostHealth)

/-- The player's battle against the battled ghost. -/
structure PlayerBattle (env : Env) (board : Board) (health grade : Nat)
    (ghost : Ghost) (state : GhostState) (turn seed health' : Nat) (state' : GhostState)
    (loss ghostLoss : Nat) : Prop where
  duel : ∃ entry, getGradeAndGhostBoard ghost.history state turn = .ok entry ∧
    Duel env seed ⟨grade, boardEntries board⟩ ⟨entry.grade, ghostBoardEntries entry.board⟩
      loss ghostLoss
  health : health' = health - min health loss
  state : state' = state.afterLoss turn ghostLoss

/-- The battle of the two other ghosts. -/
structure GhostBattle (env : Env) (ghost0 ghost1 : Ghost) (state0 state1 : GhostState)
    (turn seed : Nat) (state0' state1' : GhostState) (loss0 loss1 : Nat) : Prop where
  duel : ∃ entry0 entry1, getGradeAndGhostBoard ghost0.history state0 turn = .ok entry0 ∧
    getGradeAndGhostBoard ghost1.history state1 turn = .ok entry1 ∧
    Duel env seed ⟨entry0.grade, ghostBoardEntries entry0.board⟩
      ⟨entry1.grade, ghostBoardEntries entry1.board⟩ loss0 loss1
  state0 : state0' = state0.afterLoss turn loss0
  state1 : state1' = state1.afterLoss turn loss1

theorem list_eq_of_length_three {values : List α} (three : values.length = 3) :
    ∃ a b c, values = [a, b, c] := by
  match values, three with
  | [a, b, c], _ => exact ⟨a, b, c, rfl⟩

/-- The swap pairs every ghost with its own state, the battled one first. -/
theorem buildGhostSets_eq {ghosts : List Ghost} {states : List GhostState} {index : Nat}
    (threeGhosts : ghosts.length = 3) (threeStates : states.length = 3) (bound : index < 3) :
    ∃ left right ghost0 ghost1 ghost2 state0 state1 state2,
      [index, left, right].Perm [0, 1, 2] ∧
      buildGhostSets ghosts states index =
        .ok [(ghost0, state0, index), (ghost1, state1, left), (ghost2, state2, right)] ∧
      ghosts[index]? = some ghost0 ∧ states[index]? = some state0 ∧
      ghosts[left]? = some ghost1 ∧ states[left]? = some state1 ∧
      ghosts[right]? = some ghost2 ∧ states[right]? = some state2 := by
  obtain ⟨a, b, c, rfl⟩ := list_eq_of_length_three threeGhosts
  obtain ⟨x, y, z, rfl⟩ := list_eq_of_length_three threeStates
  obtain rfl | rfl | rfl : index = 0 ∨ index = 1 ∨ index = 2 := by omega
  · exact ⟨1, 2, a, b, c, x, y, z, by decide, rfl, rfl, rfl, rfl, rfl, rfl, rfl⟩
  · exact ⟨0, 2, b, a, c, y, x, z, by decide, rfl, rfl, rfl, rfl, rfl, rfl, rfl⟩
  · exact ⟨1, 0, c, b, a, z, y, x, by decide, rfl, rfl, rfl, rfl, rfl, rfl, rfl⟩

/-- A single active ghost is found where it is known to be. -/
theorem find_single_active {states : List GhostState} {index ghostHealth : Nat}
    (three : states.length = 3)
    (standing : states[index]? = some (GhostState.active ghostHealth))
    (single : (states.filter GhostState.isActive).length ≤ 1) :
    (states.zipIdx.find? fun (state, _) => state.isActive) =
      some (GhostState.active ghostHealth, index) := by
  have bound := (List.getElem?_eq_some_iff.mp standing).1
  rw [three] at bound
  obtain ⟨x, y, z, rfl⟩ := list_eq_of_length_three three
  obtain rfl | rfl | rfl : index = 0 ∨ index = 1 ∨ index = 2 := by omega
  · cases standing
    rfl
  · cases standing
    cases x with
    | active health => simp [List.filter, GhostState.isActive] at single
    | retired finalTurn => rfl
  · cases standing
    cases x <;> cases y
    all_goals first | rfl | simp [List.filter, GhostState.isActive] at single

section Turn

variable {board : Board} {health grade battleGhostIndex turn seed fuel generatedIds : Nat}
variable {ghosts : List Ghost} {ghostStates : List GhostState}
variable {health' last : Nat} {ghostStates' : List GhostState}

/-- All four battles of a turn with two active ghosts or more. -/
theorem battlePvgAndGvg_account
    (ready : TurnReady env board health ghostStates grade ghosts battleGhostIndex)
    (battled : battlePvgAndGvg env fuel board grade health ghosts ghostStates battleGhostIndex
      turn seed generatedIds = pure (health', ghostStates', last)) :
    ∃ left right ghost0 ghost1 ghost2 state0 state1 state2 state0' state1' state2' loss0
      ghostLoss0 loss1 loss2,
      [battleGhostIndex, left, right].Perm [0, 1, 2] ∧
      ghosts[battleGhostIndex]? = some ghost0 ∧ ghostStates[battleGhostIndex]? = some state0 ∧
      ghosts[left]? = some ghost1 ∧ ghostStates[left]? = some state1 ∧
      ghosts[right]? = some ghost2 ∧ ghostStates[right]? = some state2 ∧
      ghostStates' = ((ghostStates.set battleGhostIndex state0').set left state1').set right
        state2' ∧
      PlayerBattle env board health grade ghost0 state0 turn seed health' state0' loss0
        ghostLoss0 ∧
      GhostBattle env ghost1 ghost2 state1 state2 turn seed state1' state2' loss1 loss2 := by
  obtain ⟨ghostHealth, standing⟩ := ready.battled
  have bound := (List.getElem?_eq_some_iff.mp standing).1
  rw [ready.threeStates] at bound
  obtain ⟨left, right, ghost0, ghost1, ghost2, state0, state1, state2, permuted, sets, g0, s0, g1,
    s1, g2, s2⟩ := buildGhostSets_eq ready.threeGhosts ready.threeStates bound
  unfold battlePvgAndGvg at battled
  rw [sets] at battled
  simp only [Fueled.bind_eq_pure_iff, Fueled.of_eq_pure_iff, Except.ok.injEq,
    Fueled.pure_eq_pure_iff, exists_eq_left'] at battled
  obtain ⟨⟨_, state0', next⟩, first, ⟨state1', state2', _⟩, second, same⟩ := battled
  cases same
  obtain ⟨entry0, loss0, ghostLoss0, found0, duel0, rfl, rfl⟩ :=
    battlePvg_duel ready.bases ready.capacity ready.graded
      (ready.histories _ (List.mem_of_getElem? g0)) first
  obtain ⟨entry1, entry2, loss1, loss2, found1, found2, duel1, rfl, rfl⟩ :=
    battleGvg_duel ready.bases (ready.histories _ (List.mem_of_getElem? g1))
      (ready.histories _ (List.mem_of_getElem? g2)) second
  refine ⟨left, right, ghost0, ghost1, ghost2, state0, state1, state2, _, _, _, loss0, ghostLoss0,
    loss1, loss2, permuted, g0, s0, g1, s1, g2, s2, rfl, ⟨⟨entry0, found0, duel0⟩, ?_, rfl⟩,
    ⟨⟨entry1, entry2, found1, found2, duel1⟩, rfl, rfl⟩⟩
  omega

/-- The battle of a turn with a single active ghost. -/
theorem battleLastGhost_account
    (ready : TurnReady env board health ghostStates grade ghosts battleGhostIndex)
    (single : (ghostStates.filter GhostState.isActive).length ≤ 1)
    (battled : battleLastGhost env fuel board grade health ghosts ghostStates turn seed
      generatedIds = pure (health', ghostStates', last)) :
    ∃ ghost state state' loss ghostLoss, ghosts[battleGhostIndex]? = some ghost ∧
      ghostStates[battleGhostIndex]? = some state ∧
      ghostStates' = ghostStates.set battleGhostIndex state' ∧
      PlayerBattle env board health grade ghost state turn seed health' state' loss
        ghostLoss := by
  obtain ⟨ghostHealth, standing⟩ := ready.battled
  have found := find_single_active ready.threeStates standing single
  simp only [battleLastGhost, found, Fueled.bind_eq_pure_iff, Fueled.of_eq_pure_iff,
    okOr_eq_ok_iff, Option.some.injEq, Fueled.pure_eq_pure_iff, exists_eq_left'] at battled
  obtain ⟨ghost, present, ⟨_, state', _⟩, battled, same⟩ := battled
  cases same
  obtain ⟨entry, loss, ghostLoss, entryFound, duel, rfl, rfl⟩ :=
    battlePvg_duel ready.bases ready.capacity ready.graded
      (ready.histories _ (List.mem_of_getElem? present)) battled
  refine ⟨ghost, _, _, loss, ghostLoss, present, standing, rfl,
    ⟨⟨entry, entryFound, duel⟩, ?_, rfl⟩⟩
  omega

/-- What becomes of the states: every ghost loses something, perhaps nothing. -/
def StatesAfter (turn : Nat) (before after : List GhostState) : Prop :=
  ∀ index : Nat, ∃ loss, after[index]? = before[index]?.map (GhostState.afterLoss turn loss)

theorem afterLoss_zero {state : GhostState}
    (alive : ∀ ghostHealth, state = .active ghostHealth → 1 ≤ ghostHealth) :
    state.afterLoss turn 0 = state := by
  cases state with
  | active health =>
      have := alive health rfl
      rw [GhostState.afterLoss, if_neg (by omega), Nat.sub_zero]
  | retired finalTurn => rfl

theorem StatesAfter.retired {before after : List GhostState} {index finalTurn : Nat}
    (states : StatesAfter turn before after)
    (retired : before[index]? = some (GhostState.retired finalTurn)) :
    after[index]? = some (GhostState.retired finalTurn) := by
  obtain ⟨loss, same⟩ := states index
  rw [same, retired]
  rfl

theorem StatesAfter.active {before after : List GhostState} {index ghostHealth : Nat}
    (states : StatesAfter turn before after)
    (active : before[index]? = some (GhostState.active ghostHealth)) :
    after[index]? = some (GhostState.retired turn) ∨
      ∃ left, 1 ≤ left ∧ left ≤ ghostHealth ∧ after[index]? = some (GhostState.active left) := by
  obtain ⟨loss, same⟩ := states index
  rw [same, active, Option.map_some, GhostState.afterLoss]
  split
  · exact .inl rfl
  · exact .inr ⟨ghostHealth - loss, by omega, by omega, rfl⟩

/-- The place rule. -/
structure PlaceRule (preHealth health : Nat) (preStates states : List GhostState)
    (finalPlace : Option Nat) : Prop where
  unfinished : finalPlace = none ↔ 0 < health ∧ ∃ state ∈ states, state.isActive
  first : finalPlace = some 1 ↔ ∀ state ∈ states, ¬ state.isActive
  alive : (∀ state ∈ states, ¬ state.isActive) → 0 < health
  later : health = 0 →
    finalPlace = some (1 + ((states.zip preStates).filter (isAhead preHealth)).length)

/-- The place of `calc_final_place` follows the rule, given that a player who
has retired the last ghost is alive. -/
theorem placeRule {preHealth health : Nat} {preStates states : List GhostState}
    {finalPlace : Option Nat} (same : states.length = preStates.length)
    (few : states.length ≤ 254) (alive : (∀ state ∈ states, ¬ state.isActive) → 0 < health)
    (placed : calcFinalPlace health preHealth states preStates = .ok finalPlace) :
    PlaceRule preHealth health preStates states finalPlace := by
  rw [calcFinalPlace_eq few] at placed
  cases placed
  by_cases allRetired : ∀ state ∈ states, ¬ state.isActive
  · have retired : (states.all fun state => !state.isActive) = true := by
      simpa [List.all_eq_true] using allRetired
    have positive := alive allRetired
    rw [if_pos retired]
    refine ⟨?_, ?_, alive, fun dead => absurd dead (Nat.ne_of_gt positive)⟩
    · refine iff_of_false (fun same => nomatch same) ?_
      rintro ⟨_, state, member, active⟩
      exact allRetired state member active
    · exact iff_of_true rfl allRetired
  · have remaining : ¬ (states.all fun state => !state.isActive) = true := by
      simpa [List.all_eq_true] using allRetired
    rw [if_neg remaining]
    obtain ⟨state, member, active⟩ : ∃ state ∈ states, state.isActive := by
      simpa using allRetired
    by_cases dead : health = 0
    · rw [if_pos dead]
      have ahead : 0 < ((states.zip preStates).filter (isAhead preHealth)).length := by
        obtain ⟨index, found⟩ := List.mem_iff_getElem?.mp member
        obtain ⟨bound, rfl⟩ := List.getElem?_eq_some_iff.mp found
        have preBound : index < preStates.length := by omega
        have zipped : index < (states.zip preStates).length := by
          rw [List.length_zip]
          omega
        have paired : (states[index], preStates[index]) ∈ states.zip preStates := by
          rw [← @List.getElem_zip _ _ _ _ _ zipped]
          exact List.getElem_mem _
        refine List.length_pos_of_mem (List.mem_filter.mpr ⟨paired, ?_⟩)
        cases standing : states[index] with
        | active health => rfl
        | retired finalTurn =>
            rw [standing] at active
            cases active
      refine ⟨?_, ?_, alive, fun _ => rfl⟩
      · exact iff_of_false (fun same => nomatch same) fun ⟨positive, _⟩ => by omega
      · refine iff_of_false (fun same => ?_) allRetired
        have := Option.some.inj same
        omega
    · rw [if_neg dead]
      refine ⟨iff_of_true rfl ⟨Nat.pos_of_ne_zero dead, state, member, active⟩, ?_, alive,
        fun zero => absurd zero dead⟩
      exact iff_of_false (fun same => nomatch same) allRetired

/-- Three writes to the three places. -/
theorem getElem?_set_three {states : List GhostState} {first left right : Nat}
    (state0 state1 state2 : GhostState) (three : states.length = 3)
    (permuted : [first, left, right].Perm [0, 1, 2]) :
    let written := ((states.set first state0).set left state1).set right state2
    written[first]? = some state0 ∧ written[left]? = some state1 ∧
      written[right]? = some state2 := by
  have distinct : [first, left, right].Nodup := permuted.nodup_iff.mpr (by decide)
  have bound : ∀ index ∈ [first, left, right], index < 3 := by
    intro index member
    have := permuted.mem_iff.mp member
    simp only [List.mem_cons, List.not_mem_nil, or_false] at this
    omega
  simp only [List.nodup_cons, List.mem_cons, List.not_mem_nil, or_false, not_or] at distinct
  have firstBound := bound first (by simp)
  have leftBound := bound left (by simp)
  have rightBound := bound right (by simp)
  simp only [List.getElem?_set, List.length_set, three]
  refine ⟨?_, ?_, ?_⟩
  · rw [if_neg (Ne.symm distinct.1.2), if_neg (Ne.symm distinct.1.1), if_pos trivial,
      if_pos firstBound]
  · rw [if_neg (Ne.symm distinct.2.1), if_pos trivial, if_pos leftBound]
  · rw [if_pos trivial, if_pos rightBound]

theorem statesAfter_set_three {states : List GhostState} {first left right : Nat}
    {state0 state1 state2 : GhostState} {loss0 loss1 loss2 : Nat} (three : states.length = 3)
    (permuted : [first, left, right].Perm [0, 1, 2]) (found0 : states[first]? = some state0)
    (found1 : states[left]? = some state1) (found2 : states[right]? = some state2) :
    StatesAfter turn states
      (((states.set first (state0.afterLoss turn loss0)).set left
        (state1.afterLoss turn loss1)).set right (state2.afterLoss turn loss2)) := by
  obtain ⟨written0, written1, written2⟩ := getElem?_set_three (state0.afterLoss turn loss0)
    (state1.afterLoss turn loss1) (state2.afterLoss turn loss2) three permuted
  intro index
  by_cases bound : index < 3
  · have member : index ∈ [first, left, right] := by
      refine permuted.mem_iff.mpr ?_
      simp only [List.mem_cons, List.not_mem_nil, or_false]
      omega
    simp only [List.mem_cons, List.not_mem_nil, or_false] at member
    rcases member with rfl | rfl | rfl
    · exact ⟨loss0, by rw [written0, found0, Option.map_some]⟩
    · exact ⟨loss1, by rw [written1, found1, Option.map_some]⟩
    · exact ⟨loss2, by rw [written2, found2, Option.map_some]⟩
  · refine ⟨0, ?_⟩
    rw [List.getElem?_eq_none (by simp; omega), List.getElem?_eq_none (by omega), Option.map_none]

theorem statesAfter_set {states : List GhostState} {index loss : Nat} {state : GhostState}
    (alive : ∀ ghostHealth, GhostState.active ghostHealth ∈ states → 1 ≤ ghostHealth)
    (found : states[index]? = some state) :
    StatesAfter turn states (states.set index (state.afterLoss turn loss)) := by
  intro other
  by_cases same : index = other
  · subst same
    have bound := (List.getElem?_eq_some_iff.mp found).1
    exact ⟨loss, by rw [List.getElem?_set_self bound, found, Option.map_some]⟩
  · refine ⟨0, ?_⟩
    rw [List.getElem?_set_ne same]
    cases present : states[other]? with
    | none => rfl
    | some state =>
        rw [Option.map_some, afterLoss_zero fun ghostHealth same =>
          alive ghostHealth (same ▸ List.mem_of_getElem? present)]

/-- A player who has just retired the last ghost lost nothing to it. -/
theorem PlayerBattle.alive {ghost : Ghost} {state state' : GhostState} {loss ghostLoss : Nat}
    (ready : TurnReady env board health ghostStates grade ghosts battleGhostIndex)
    (player : PlayerBattle env board health grade ghost state turn seed health' state' loss
      ghostLoss) (loses : loss = 0 ∨ ghostLoss = 0)
    (found : ghostStates[battleGhostIndex]? = some state) (retired : ¬ state'.isActive) :
    0 < health' := by
  obtain ⟨ghostHealth, standing⟩ := ready.battled
  have positive := ready.activeAlive ghostHealth (List.mem_of_getElem? standing)
  rw [standing] at found
  cases found
  rw [player.state, GhostState.afterLoss] at retired
  have alive := ready.alive
  rw [player.health]
  split at retired
  · rcases loses with rfl | rfl <;> omega
  · exact absurd rfl retired

/-- The whole account of a turn: the player's battle, the battle of the other
two ghosts if there is one, the states and the place. -/
theorem battleAll_account {finalPlace : Option Nat}
    (ready : TurnReady env board health ghostStates grade ghosts battleGhostIndex)
    (battled : battleAll env fuel board health ghostStates grade ghosts battleGhostIndex turn seed
      generatedIds = pure (finalPlace, health', ghostStates', last)) :
    (∃ ghost state state' loss ghostLoss,
      ghosts[battleGhostIndex]? = some ghost ∧ ghostStates[battleGhostIndex]? = some state ∧
      ghostStates'[battleGhostIndex]? = some state' ∧
      PlayerBattle env board health grade ghost state turn seed health' state' loss ghostLoss ∧
      (loss = 0 ∨ ghostLoss = 0)) ∧
    (if 1 < (ghostStates.filter GhostState.isActive).length then
      ∃ left right ghost1 ghost2 state1 state2 state1' state2' loss1 loss2,
        [battleGhostIndex, left, right].Perm [0, 1, 2] ∧
        ghosts[left]? = some ghost1 ∧ ghostStates[left]? = some state1 ∧
        ghosts[right]? = some ghost2 ∧ ghostStates[right]? = some state2 ∧
        ghostStates'[left]? = some state1' ∧ ghostStates'[right]? = some state2' ∧
        GhostBattle env ghost1 ghost2 state1 state2 turn seed state1' state2' loss1 loss2 ∧
        (loss1 = 0 ∨ loss2 = 0)
    else ∀ index, index ≠ battleGhostIndex → ghostStates'[index]? = ghostStates[index]?) ∧
    ghostStates'.length = 3 ∧
    (∀ index finalTurn : Nat, ghostStates[index]? = some (GhostState.retired finalTurn) →
      ghostStates'[index]? = some (GhostState.retired finalTurn)) ∧
    (∀ index ghostHealth : Nat, ghostStates[index]? = some (GhostState.active ghostHealth) →
      ghostStates'[index]? = some (GhostState.retired turn) ∨
        ∃ left, 1 ≤ left ∧ left ≤ ghostHealth ∧
          ghostStates'[index]? = some (GhostState.active left)) ∧
    PlaceRule health health' ghostStates ghostStates' finalPlace := by
  simp only [battleAll, Fueled.bind_eq_pure_iff, Fueled.of_eq_pure_iff, Fueled.pure_eq_pure_iff,
    Prod.mk.injEq] at battled
  obtain ⟨⟨_, _, _⟩, battled, _, placed, rfl, rfl, rfl, rfl⟩ := battled
  unfold battleGhosts at battled
  split at battled
  · rename_i several
    obtain ⟨left, right, ghost0, ghost1, ghost2, state0, state1, state2, state0', state1', state2',
      loss0, ghostLoss0, loss1, loss2, permuted, g0, s0, g1, s1, g2, s2, rfl, player, others⟩ :=
      battlePvgAndGvg_account ready battled
    obtain ⟨entry, _, duel⟩ := player.duel
    obtain ⟨_, _, _, _, duel'⟩ := others.duel
    obtain ⟨written0, written1, written2⟩ := getElem?_set_three state0' state1' state2'
      ready.threeStates permuted
    have states : StatesAfter turn ghostStates
        (((ghostStates.set battleGhostIndex state0').set left state1').set right state2') := by
      rw [player.state, others.state0, others.state1]
      exact statesAfter_set_three ready.threeStates permuted s0 s1 s2
    have length : (((ghostStates.set battleGhostIndex state0').set left state1').set right
        state2').length = 3 := by simpa using ready.threeStates
    rw [if_pos several]
    refine ⟨⟨ghost0, state0, state0', loss0, ghostLoss0, g0, s0, written0, player,
      duel.one_loses⟩, ⟨left, right, ghost1, ghost2, state1, state2, state1', state2', loss1,
      loss2, permuted, g1, s1, g2, s2, written1, written2, others, duel'.one_loses⟩, length,
      fun _ _ => states.retired, fun _ _ => states.active, ?_⟩
    refine placeRule (length.trans ready.threeStates.symm) (length.trans_le (by decide))
      (fun retired => ?_) placed
    exact player.alive ready duel.one_loses s0 (retired _ (List.mem_of_getElem? written0))
  · rename_i single
    obtain ⟨ghost, state, state', loss, ghostLoss, present, found, rfl, player⟩ :=
      battleLastGhost_account ready (Nat.le_of_not_lt single) battled
    obtain ⟨entry, _, duel⟩ := player.duel
    have written : (ghostStates.set battleGhostIndex state')[battleGhostIndex]? = some state' :=
      List.getElem?_set_self (List.getElem?_eq_some_iff.mp found).1
    have states : StatesAfter turn ghostStates (ghostStates.set battleGhostIndex state') := by
      rw [player.state]
      exact statesAfter_set ready.activeAlive found
    have length : (ghostStates.set battleGhostIndex state').length = 3 := by
      simpa using ready.threeStates
    rw [if_neg single]
    refine ⟨⟨ghost, state, state', loss, ghostLoss, present, found, written, player,
      duel.one_loses⟩, fun index different => List.getElem?_set_ne different.symm, length,
      fun _ _ => states.retired, fun _ _ => states.active, ?_⟩
    refine placeRule (length.trans ready.threeStates.symm) (length.trans_le (by decide))
      (fun retired => ?_) placed
    exact player.alive ready duel.one_loses found (retired _ (List.mem_of_getElem? written))

end Turn

def soloBase : Base where
  id := 0
  typ := .human
  grade := 2
  attack := 2
  health := 2
  abilities := []

def soloEnv : Env where
  emoBases id := if id = 0 then some soloBase else none
  sampler := .first

/-- A ghost with one emo in its history. -/
def soloGhost : Ghost where
  history := [⟨2, [⟨0, buildEmoAttributes soloBase false⟩]⟩]

/-- A board with one emo that outlives it. -/
def soloBoard : Board := [⟨[1], 0, { buildEmoAttributes soloBase false with health := 5 }⟩]

theorem turnReady_solo : TurnReady soloEnv soloBoard 4 [.active 1, .retired 4, .active 2] 2
    [{}, {}, soloGhost] 2 where
  bases id base resolved := by
    simp only [soloEnv] at resolved
    split at resolved
    · cases resolved
      decide
    · cases resolved
  capacity := by decide
  alive := by decide
  threeStates := rfl
  activeAlive ghostHealth member := by
    simp only [List.mem_cons, GhostState.active.injEq, reduceCtorEq, List.not_mem_nil, or_false,
      false_or] at member
    omega
  graded := by decide
  threeGhosts := rfl
  histories ghost member entry listed := by
    simp only [List.mem_cons, List.not_mem_nil, or_false] at member
    rcases member with rfl | rfl | rfl
    · cases listed
    · cases listed
    · rw [List.mem_singleton.mp listed]
      exact ⟨by decide, by decide⟩
  battled := ⟨2, rfl⟩

/-- The player's emo beats that of the ghost, which retires, and the match goes
on. -/
theorem battleAll_account_solo :
    (∃ ghost loss ghostLoss,
      PlayerBattle soloEnv soloBoard 4 2 ghost (.active 2) 5 0 4 (.retired 5) loss ghostLoss ∧
        loss = 0 ∧ 2 ≤ ghostLoss) ∧
    PlaceRule 4 4 [.active 1, .retired 4, .active 2] [.active 1, .retired 4, .retired 5]
      none := by
  have battled : battleAll soloEnv 60 soloBoard 4 [.active 1, .retired 4, .active 2] 2
      [{}, {}, soloGhost] 2 5 0 0 =
        pure (none, 4, [.active 1, .retired 4, .retired 5], 2) := rfl
  obtain ⟨⟨ghost, state, state', loss, ghostLoss, _, before, after, player, _⟩, _, _, _, _, place⟩ :=
    battleAll_account turnReady_solo battled
  cases before
  cases after
  have kept := player.health
  have retired := player.state
  refine ⟨⟨ghost, loss, ghostLoss, player, by omega, ?_⟩, place⟩
  by_contra small
  rw [GhostState.afterLoss, if_neg small] at retired
  cases retired

end EmojiBattler.Mtc
