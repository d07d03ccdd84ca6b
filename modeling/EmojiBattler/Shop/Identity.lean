import EmojiBattler.Library.Numbering
import EmojiBattler.Shop.Turn

/-! # The ids of the emos on a shop board

As long as the generator has not come round, the ids on a board are distinct
and an emo that has left the board never comes back. -/

namespace EmojiBattler.Mtc.Shop

open EmojiBattler.Emo CallMachine

variable {env : Env}

/-- How many ids the generator returns before it repeats one. -/
def idCount : Nat := 65536

theorem generateShopBoardEmoId_inj {first left right : Nat}
    (leftLower : first ≤ left) (leftUpper : left < first + idCount)
    (rightLower : first ≤ right) (rightUpper : right < first + idCount)
    (same : generateShopBoardEmoId left = generateShopBoardEmoId right) : left = right :=
  Numbering.call_inj leftLower leftUpper rightLower rightUpper same

/-- The id was returned since the generator stood at `first`. -/
def Issued (first generatedIds id : Nat) : Prop :=
  ∃ number, first ≤ number ∧ number < generatedIds ∧ generateShopBoardEmoId number = id

theorem Issued.mono {first before after id : Nat} (issued : Issued first before id)
    (later : before ≤ after) : Issued first after id :=
  Numbering.Issued.mono issued later

/-- The next id is new. -/
theorem Issued.ne_next {first generatedIds id : Nat} (issued : Issued first generatedIds id)
    (room : generatedIds < first + idCount) : generateShopBoardEmoId generatedIds ≠ id :=
  Numbering.Issued.ne_next issued room

/-- The emos on the board have distinct ids that were returned since the
generator stood at `first`. -/
structure Fresh (first : Nat) (state : ShopState) : Prop where
  distinct : (state.board.map ShopBoardEmo.id).Nodup
  issued : ∀ emo ∈ state.board, Issued first state.generatedIds emo.id

/-- An id determines the emo. -/
theorem Fresh.eq_of_id_eq {first : Nat} {state : ShopState} (fresh : Fresh first state)
    {left right : ShopBoardEmo} (leftMember : left ∈ state.board)
    (rightMember : right ∈ state.board) (same : left.id = right.id) : left = right :=
  List.inj_on_of_nodup_map fresh.distinct leftMember rightMember same

theorem Fresh.perm {first : Nat} {before after : ShopState} (fresh : Fresh first before)
    (permuted : after.board.Perm before.board)
    (generatedIds : after.generatedIds = before.generatedIds) : Fresh first after where
  distinct := (permuted.map _).nodup_iff.mpr fresh.distinct
  issued emo member := by
    rw [generatedIds]
    exact fresh.issued emo (permuted.subset member)

theorem Fresh.update {first : Nat} {before after : ShopState} (fresh : Fresh first before)
    (update : Update before after) : Fresh first after where
  distinct := by
    rw [update.board.map_eq Changed.id_eq]
    exact fresh.distinct
  issued := by
    rw [update.generatedIds]
    exact update.board.forall (fun change issued => by rwa [change.id_eq]) fresh.issued

/-- A part of the board and the next new emo. -/
theorem Fresh.insert {first : Nat} {before : ShopState} {board after : ShopBoard}
    {index : Nat} {emo : ShopBoardEmo}
    (fresh : Fresh first before) (logs : List BoardLog) (gottenCoin : Nat)
    (room : before.generatedIds < first + idCount)
    (start : first ≤ before.generatedIds) (part : board.Sublist before.board)
    (bound : index ≤ board.length) (inserted : after = board.insertIdx index emo)
    (new : emo.id = generateShopBoardEmoId before.generatedIds) :
    Fresh first ⟨after, logs, gottenCoin, before.generatedIds + 1⟩ := by
  have permuted : after.Perm (emo :: board) := by
    rw [inserted]
    exact List.perm_insertIdx emo board bound
  constructor
  · refine (permuted.map _).nodup_iff.mpr (List.nodup_cons.mpr ⟨fun member => ?_, ?_⟩)
    · obtain ⟨old, present, same⟩ := List.mem_map.mp member
      refine (fresh.issued old (part.subset present)).ne_next room ?_
      rw [same, new]
    · exact fresh.distinct.sublist (part.map _)
  · intro other member
    rcases List.mem_cons.mp (permuted.subset member) with rfl | old
    · exact ⟨before.generatedIds, start, Nat.lt_succ_self _, new.symm⟩
    · exact (fresh.issued other (part.subset old)).mono (Nat.le_succ _)

/-- The emos after a task are old ones and the one that it generated an id
for. -/
theorem Effect.ids {task : Task env.sampler} {before after : ShopState}
    {calls : List (Task env.sampler)} (effect : Effect env task before after calls) :
    ∀ emo ∈ after.board, (∃ old ∈ before.board, old.id = emo.id) ∨
      (emo.id = generateShopBoardEmoId before.generatedIds ∧
        after.generatedIds = before.generatedIds + 1) := by
  intro emo member
  cases effect with
  | update _ update _ =>
      have ids := update.board.map_eq Changed.id_eq
      have present : emo.id ∈ before.board.map ShopBoardEmo.id := by
        rw [← ids]
        exact List.mem_map_of_mem member
      obtain ⟨old, oldMember, same⟩ := List.mem_map.mp present
      exact .inl ⟨old, oldMember, same⟩
  | settled _ _ _ _ _ _ _ same =>
      subst same
      exact .inl ⟨emo, member, rfl⟩
  | addition base baseId isTriple _ _ addition generatedIds =>
      obtain ⟨_, ⟨index, bound, inserted⟩, _⟩ := addition
      rw [inserted] at member
      rcases List.eq_or_mem_of_mem_insertIdx member with rfl | old
      · exact .inr ⟨rfl, generatedIds⟩
      · exact .inl ⟨emo, old, rfl⟩
  | merge _ target _ _ _ merge =>
      obtain ⟨_, ⟨triple, built, _, ⟨index, bound, inserted⟩, _⟩, generatedIds⟩ := merge
      rw [inserted] at member
      rcases List.eq_or_mem_of_mem_insertIdx member with rfl | old
      · exact .inr ⟨built.id, generatedIds⟩
      · exact .inl ⟨emo, (List.mem_filter.mp old).1, rfl⟩

theorem Effect.generatedIds_le {task : Task env.sampler} {before after : ShopState}
    {calls : List (Task env.sampler)} (effect : Effect env task before after calls) :
    before.generatedIds ≤ after.generatedIds := by
  cases effect with
  | update _ update _ => exact update.generatedIds.ge
  | settled _ _ _ _ _ _ _ same => rw [same]
  | addition _ _ _ _ _ _ generatedIds => omega
  | merge _ _ _ _ _ merge => exact merge.generatedIds ▸ Nat.le_succ _

theorem Returns.generatedIds_le {stack : List (Task env.sampler)} {before after : ShopState}
    (returned : Returns (perform env) ⟨stack, before⟩ after) :
    before.generatedIds ≤ after.generatedIds :=
  Reaches.state_invariant (P := fun state => before.generatedIds ≤ state.generatedIds)
    (fun reached performed => reached.trans (perform_effect performed).generatedIds_le) returned
    (Nat.le_refl _)

theorem Fresh.step {first : Nat} {task : Task env.sampler} {before after : ShopState}
    {calls : List (Task env.sampler)} (fresh : Fresh first before)
    (start : first ≤ before.generatedIds) (room : after.generatedIds ≤ first + idCount)
    (effect : Effect env task before after calls) : Fresh first after := by
  cases effect with
  | update _ update _ => exact fresh.update update
  | settled _ _ _ _ _ _ _ same => rwa [same]
  | addition base baseId isTriple _ _ addition generatedIds =>
      obtain ⟨_, ⟨index, bound, inserted⟩, _⟩ := addition
      have inserting := fresh.insert [] 0 (by omega) start
        (.refl _) bound inserted rfl
      exact ⟨inserting.distinct, by
        rw [generatedIds]
        exact inserting.issued⟩
  | merge _ target _ _ _ merge =>
      obtain ⟨_, ⟨triple, built, _, ⟨index, bound, inserted⟩, _⟩, generatedIds⟩ := merge
      have inserting := fresh.insert [] 0 (by omega) start
        List.filter_sublist bound inserted built.id
      exact ⟨inserting.distinct, by
        rw [generatedIds]
        exact inserting.issued⟩

theorem Fresh.returns {first : Nat} {stack : List (Task env.sampler)} {before after : ShopState}
    (fresh : Fresh first before) (start : first ≤ before.generatedIds)
    (room : after.generatedIds ≤ first + idCount)
    (returned : Returns (perform env) ⟨stack, before⟩ after) : Fresh first after := by
  have run := Reaches.invariant
    (P := fun config => first ≤ config.state.generatedIds ∧
      (config.state.generatedIds ≤ first + idCount → Fresh first config.state))
    (fun {task rest calls state next} holds performed => by
      have effect := perform_effect performed
      have grows := effect.generatedIds_le
      exact ⟨holds.1.trans grows, fun room => (holds.2 (grows.trans room)).step holds.1 room
        effect⟩)
    returned ⟨start, fun _ => fresh⟩
  exact run.2 room

theorem generateShopBoardEmoId_lt (generatedIds : Nat) :
    generateShopBoardEmoId generatedIds < idCount :=
  Nat.mod_lt _ (by decide)

/-- The ids of a board that was just built. -/
theorem fromBoard_ids (board : Board) (generatedIds : Nat) :
    (ShopBoard.fromBoard board generatedIds).map ShopBoardEmo.id =
      (List.range' generatedIds board.length).map generateShopBoardEmoId := by
  rw [ShopBoard.fromBoard, List.map_map, ← List.zipIdx_map_snd, List.map_map]
  rfl

theorem nodup_generated {count : Nat} (generatedIds : Nat) (room : count ≤ idCount) :
    ((List.range' generatedIds count).map generateShopBoardEmoId).Nodup := by
  refine List.Nodup.map_on (fun left leftMember right rightMember same => ?_) List.nodup_range'
  rw [List.mem_range'_1] at leftMember rightMember
  exact generateShopBoardEmoId_inj leftMember.1 (by omega) rightMember.1 (by omega) same

/-- Emos with successive ids. -/
theorem fresh_of_ids {state : ShopState} {first count : Nat} (room : count ≤ idCount)
    (ids : state.board.map ShopBoardEmo.id =
      (List.range' first count).map generateShopBoardEmoId)
    (later : first + count ≤ state.generatedIds) : Fresh first state := by
  constructor
  · rw [ids]
    exact nodup_generated first room
  · intro emo member
    have present := List.mem_map_of_mem (f := ShopBoardEmo.id) member
    rw [ids] at present
    obtain ⟨number, bound, same⟩ := List.mem_map.mp present
    rw [List.mem_range'_1] at bound
    exact ⟨number, bound.1, Nat.lt_of_lt_of_le bound.2 later, same⟩

theorem fresh_openShop {board : Board} {generatedIds : Nat} (room : board.length ≤ idCount) :
    Fresh generatedIds (openShop board generatedIds) :=
  fresh_of_ids room (fromBoard_ids board generatedIds) (Nat.le_refl _)

/-! ## Actions -/

theorem Fresh.addEmo {first fuel baseId emoIndex : Nat} {mtcEmoIds : List Nat}
    {isTriple : Bool} {state last : ShopState} (fresh : Fresh first state)
    (start : first ≤ state.generatedIds) (room : last.generatedIds ≤ first + idCount)
    (performed : Shop.addEmo env fuel mtcEmoIds baseId isTriple emoIndex state = pure last) :
    Fresh first last := by
  simp only [Shop.addEmo, Fueled.bind_eq_pure_iff, Fueled.of_eq_pure_iff] at performed
  obtain ⟨⟨calls, started⟩, added, performed⟩ := performed
  obtain ⟨base, _, ⟨_, ⟨index, bound, inserted⟩, _⟩, generatedIds⟩ := addEmoCalls_addition added
  have returned := runCalls_returns performed
  have later := Returns.generatedIds_le returned
  dsimp only at later returned
  have inserting := fresh.insert [] 0 (by omega) start (.refl _) bound inserted rfl
  have freshStarted : Fresh first started := ⟨inserting.distinct, by
    rw [generatedIds]
    exact inserting.issued⟩
  exact freshStarted.returns (by omega) room returned

theorem Fresh.sellEmo {first fuel emoIndex : Nat} {state last : ShopState}
    (fresh : Fresh first state) (start : first ≤ state.generatedIds)
    (room : last.generatedIds ≤ first + idCount)
    (performed : Shop.sellEmo env fuel emoIndex state = pure last) : Fresh first last := by
  simp only [Shop.sellEmo, Fueled.bind_eq_pure_iff, Fueled.of_eq_pure_iff] at performed
  obtain ⟨⟨calls, started⟩, sold, performed⟩ := performed
  obtain ⟨removed, generatedIds, _⟩ := sellEmoCalls_removal sold
  have part : started.board.Sublist state.board := by
    rw [removed]
    exact List.eraseIdx_sublist ..
  have freshStarted : Fresh first started := ⟨fresh.distinct.sublist (part.map _), fun emo member => by
    rw [generatedIds]
    exact fresh.issued emo (part.subset member)⟩
  exact freshStarted.returns (by omega) room (runCalls_returns performed)

theorem startShop_generatedIds_le {fuel seed : Nat} {state last : ShopState}
    (performed : startShop env fuel seed state = pure last) :
    state.generatedIds ≤ last.generatedIds := by
  have later := Returns.generatedIds_le (runCalls_returns performed)
  exact later

theorem addEmo_generatedIds_lt {fuel baseId emoIndex : Nat} {mtcEmoIds : List Nat}
    {isTriple : Bool} {state last : ShopState}
    (performed : Shop.addEmo env fuel mtcEmoIds baseId isTriple emoIndex state = pure last) :
    state.generatedIds < last.generatedIds := by
  simp only [Shop.addEmo, Fueled.bind_eq_pure_iff, Fueled.of_eq_pure_iff] at performed
  obtain ⟨⟨calls, started⟩, added, performed⟩ := performed
  obtain ⟨_, _, _, generatedIds⟩ := addEmoCalls_addition added
  have later := Returns.generatedIds_le (runCalls_returns performed)
  dsimp only at later
  omega

theorem sellEmo_generatedIds_le {fuel emoIndex : Nat} {state last : ShopState}
    (performed : Shop.sellEmo env fuel emoIndex state = pure last) :
    state.generatedIds ≤ last.generatedIds := by
  simp only [Shop.sellEmo, Fueled.bind_eq_pure_iff, Fueled.of_eq_pure_iff] at performed
  obtain ⟨⟨calls, started⟩, sold, performed⟩ := performed
  obtain ⟨_, generatedIds, _⟩ := sellEmoCalls_removal sold
  have later := Returns.generatedIds_le (runCalls_returns performed)
  dsimp only at later
  omega

/-! ## Turns -/

theorem Operated.generatedIds_le {catalog : Catalog} {operation : PlayerOperation}
    {before after : TurnState} (operated : Operated env catalog before after operation) :
    before.shop.generatedIds ≤ after.shop.generatedIds := by
  cases operated with
  | buy _ _ _ _ generatedIds returned _ =>
      have := Returns.generatedIds_le returned
      omega
  | sell _ _ _ generatedIds _ returned _ =>
      have := Returns.generatedIds_le returned
      omega
  | move _ generatedIds _ => exact generatedIds.ge
  | nextCatalogLine shop _ => rw [shop]
  | upgrade shop _ => rw [shop]

end EmojiBattler.Mtc.Shop
