import EmojiBattler.Library.Eviction
import EmojiBattler.Library.Keyed
import EmojiBattler.Library.Runs
import EmojiBattler.Game.Matchmaking
import EmojiBattler.Pallet.Game

/-! # The rivals that the chain and the contract keep

The pallet refreshes an account in its place and gives up the first entry of a
full list; the contract gives up the entry with the smallest block number. -/

namespace EmojiBattler.Pallet

open EmojiBattler.Mtc
open EmojiBattler.Game (Contract Context InfoBounded placeMatchmakingGhost_placed)
open Eviction Keyed
open Function (update)

variable {AccountId : Type}

/-- What a registration of a ghost of the caller is called with. -/
structure GhostRegistration (AccountId : Type) where
  context : Context AccountId
  ep : Nat
  gradeAndBoardHistory : List GradeAndBoard

namespace GhostRegistration

def account (registration : GhostRegistration AccountId) : AccountId := registration.context.caller

def block (registration : GhostRegistration AccountId) : Nat := registration.context.blockNumber

def ghost (registration : GhostRegistration AccountId) : Ghost :=
  buildGhostFromHistory registration.gradeAndBoardHistory

end GhostRegistration

/-- The storages of the pallet and of the contract. -/
structure Stores (AccountId : Type) where
  storage : Storage AccountId
  contract : Contract AccountId

/-- The entries of a band. -/
def Storage.rivals (storage : Storage AccountId) (epBand : Nat) : List (AccountId × Nat × Ghost) :=
  (storage.matchmakingGhosts epBand).getD []

namespace Stores

def palletAccounts (stores : Stores AccountId) (epBand : Nat) : List AccountId :=
  (stores.storage.rivals epBand).map Prod.fst

def contractAccounts (stores : Stores AccountId) (epBand : Nat) : List AccountId :=
  (stores.contract.bandInfo epBand).map Prod.snd

/-- The accounts and ghosts that the pallet keeps. -/
def palletGhosts (stores : Stores AccountId) (epBand : Nat) : Set (AccountId × Ghost) :=
  { kept | ∃ ep, (kept.1, ep, kept.2) ∈ stores.storage.rivals epBand }

/-- The accounts and ghosts that the contract keeps. -/
def contractGhosts (stores : Stores AccountId) (epBand : Nat) : Set (AccountId × Ghost) :=
  { kept | ∃ index num, (stores.contract.bandInfo epBand)[index]? = some (num, kept.1) ∧
    stores.contract.matchmakingGhostByIndex (epBand, index) = some kept.2 }

variable [DecidableEq AccountId]

def register (stores : Stores AccountId) (registration : GhostRegistration AccountId) :
    Result (Stores AccountId) := do
  let contract ← stores.contract.addMatchmakingGhost registration.context registration.account
    registration.ep registration.gradeAndBoardHistory
  let storage := stores.storage.registerGhost registration.account registration.ep
    registration.gradeAndBoardHistory
  return { storage, contract }

def registerAll (stores : Stores AccountId)
    (registrations : List (GhostRegistration AccountId)) : Result (Stores AccountId) :=
  registrations.foldlM register stores

end Stores

variable [DecidableEq AccountId]

/-! ## The list of the pallet -/

section BuildMatchmakingGhosts

variable {account : AccountId} {ep : Nat} {history : List GradeAndBoard}
variable {getMatchmakingGhosts : Nat → Option (List (AccountId × Nat × Ghost))}

theorem buildMatchmakingGhosts_accounts :
    (buildMatchmakingGhosts account ep history getMatchmakingGhosts).2.map Prod.fst =
      acceptLast 20 account (((getMatchmakingGhosts (getEpBand ep)).getD []).map Prod.fst) := by
  unfold buildMatchmakingGhosts acceptLast
  dsimp only
  generalize (getMatchmakingGhosts (getEpBand ep)).getD [] = entries
  cases same : entries.findIdx? fun entry => entry.1 = account with
  | some index =>
      obtain ⟨bound, own⟩ := key_of_findIdx?_eq_some same
      have known : account ∈ entries.map Prod.fst :=
        own ▸ List.mem_map_of_mem (List.getElem_mem bound)
      rw [if_pos known]
      exact @map_set_of_key_eq _ _ Prod.fst entries (account, ep, _) index bound own
  | none =>
      rw [if_neg (notMem_of_findIdx?_eq_none same), List.length_map]
      dsimp only
      split
      · rw [List.map_append, List.map_singleton]
      · rw [List.map_append, List.map_singleton, List.eraseIdx_zero, List.eraseIdx_zero,
          List.map_tail]

/-- The account has the new entry, and the others have the entry they had. -/
theorem mem_buildMatchmakingGhosts {entry : AccountId × Nat × Ghost}
    (distinct : (((getMatchmakingGhosts (getEpBand ep)).getD []).map Prod.fst).Nodup)
    (member : entry ∈ (buildMatchmakingGhosts account ep history getMatchmakingGhosts).2) :
    entry = (account, ep, buildGhostFromHistory history) ∨
      entry.1 ≠ account ∧ entry ∈ (getMatchmakingGhosts (getEpBand ep)).getD [] := by
  unfold buildMatchmakingGhosts at member
  dsimp only at member
  generalize (getMatchmakingGhosts (getEpBand ep)).getD [] = entries at distinct member ⊢
  cases same : entries.findIdx? fun entry => entry.1 = account with
  | some index =>
      rw [same] at member
      obtain ⟨bound, own⟩ := key_of_findIdx?_eq_some same
      obtain ⟨position, inside, rfl⟩ := List.mem_iff_getElem.mp member
      dsimp only at inside ⊢
      rw [List.length_set] at inside
      rw [List.getElem_set]
      split
      · exact .inl rfl
      · rename_i apart
        refine .inr ⟨fun again => apart ?_, List.getElem_mem inside⟩
        exact index_eq_of_key_eq distinct bound inside (own.trans again.symm)
  | none =>
      rw [same] at member
      have others := key_ne_of_findIdx?_eq_none same
      dsimp only at member
      split at member
      · rcases List.mem_append.mp member with listed | last
        · exact .inr ⟨others entry listed, listed⟩
        · exact .inl (List.mem_singleton.mp last)
      · rcases List.mem_append.mp member with listed | last
        · have listed := (List.eraseIdx_sublist entries 0).subset listed
          exact .inr ⟨others entry listed, listed⟩
        · exact .inl (List.mem_singleton.mp last)

end BuildMatchmakingGhosts

theorem registerGhost_rivals {storage : Storage AccountId} {account : AccountId} {ep : Nat}
    {history : List GradeAndBoard} :
    (storage.registerGhost account ep history).rivals (getEpBand ep) =
      (buildMatchmakingGhosts account ep history storage.matchmakingGhosts).2 := by
  have stored : (storage.registerGhost account ep history).matchmakingGhosts (getEpBand ep) =
      some (buildMatchmakingGhosts account ep history storage.matchmakingGhosts).2 := by
    unfold Storage.registerGhost
    exact Function.update_self (getEpBand ep) _ _
  rw [Storage.rivals, stored, Option.getD_some]

/-! ## The list of the contract -/

/-- The accounts of the list are those of a store that gives up the oldest
entry. -/
theorem placeMatchmakingGhost_accounts {player : AccountId} {blockNumber index : Nat}
    {before after : List (Nat × AccountId)} (bounded : InfoBounded before)
    (placed : Contract.placeMatchmakingGhost player blockNumber before = .ok (after, index)) :
    ∃ victim : AccountId, (player ∉ before.map Prod.snd → before.length = 20 →
        ∃ place num : Nat, before[place]? = some (num, victim) ∧ ∀ entry ∈ before, num ≤ entry.1) ∧
      (after.map Prod.snd).toFinset = accept 20 victim player (before.map Prod.snd).toFinset := by
  have card : (before.map Prod.snd).toFinset.card = before.length := by
    rw [List.toFinset_card_of_nodup bounded.distinct, List.length_map]
  obtain ⟨_, _, again, facts⟩ := @placeMatchmakingGhost_placed _ _ player blockNumber _ bounded
  cases placed.symm.trans again
  unfold Contract.placeMatchmakingGhost at placed
  cases same : before.findIdx? fun entry => entry.2 = player with
  | some position =>
      rw [same] at placed
      cases placed
      obtain ⟨bound, own⟩ := key_of_findIdx?_eq_some same
      have known : player ∈ before.map Prod.snd :=
        own ▸ List.mem_map_of_mem (List.getElem_mem bound)
      refine ⟨player, fun new => absurd known new, ?_⟩
      rw [@map_set_of_key_eq _ _ Prod.snd before (blockNumber, player) index bound own,
        accept_of_mem (List.mem_toFinset.mpr known)]
  | none =>
      have new : player ∉ before.map Prod.snd := notMem_of_findIdx?_eq_none same
      have new' : player ∉ (before.map Prod.snd).toFinset := by rwa [List.mem_toFinset]
      rw [same] at placed
      dsimp only at placed
      split at placed
      · rename_i room
        cases placed
        refine ⟨player, fun _ full => absurd full (Nat.ne_of_lt room), ?_⟩
        rw [accept_of_lt new' (card ▸ room)]
        ext candidate
        simp
      · rename_i full
        have full : before.length = 20 := Nat.le_antisymm bounded.size (Nat.not_lt.mp full)
        obtain ⟨rfl, num, victim, found, least⟩ := facts.oldest full new
        refine ⟨victim, fun _ _ => ⟨index, num, found, least⟩, ?_⟩
        have victimAt : (before.map Prod.snd)[index]? = some victim := by
          rw [List.getElem?_map, found, Option.map_some]
        rw [List.map_set, accept_of_le new' (Nat.le_of_eq (card.trans full).symm),
          toFinset_set bounded.distinct victimAt new]

/-! ## One registration -/

/-- The last registration of an account. -/
abbrev lastRegistration (registrations : List (GhostRegistration AccountId))
    (account : AccountId) : Option (GhostRegistration AccountId) :=
  latest GhostRegistration.account registrations account

/-- No account of the list has an older last registration. -/
abbrev OldestAccount (registrations : List (GhostRegistration AccountId))
    (accounts : List AccountId) (account : AccountId) : Prop :=
  Oldest GhostRegistration.account GhostRegistration.block registrations accounts.toFinset account

variable {done registrations : List (GhostRegistration AccountId)} {epBand : Nat}
variable {registration : GhostRegistration AccountId}

theorem lastRegistration_snoc_of_ne {account : AccountId}
    (different : account ≠ registration.account) :
    lastRegistration (done ++ [registration]) account = lastRegistration done account :=
  latest_snoc_of_ne different.symm

/-- The entries of the pallet are bounded, one for each account, with its last
ghost. -/
structure EntriesRecorded (registrations : List (GhostRegistration AccountId))
    (entries : List (AccountId × Nat × Ghost)) : Prop where
  size : entries.length ≤ 20
  distinct : (entries.map Prod.fst).Nodup
  last : ∀ entry ∈ entries, ∃ registration,
    lastRegistration registrations entry.1 = some registration ∧ registration.ghost = entry.2.2

theorem EntriesRecorded.build {storage : Storage AccountId}
    (recorded : EntriesRecorded done (storage.rivals (getEpBand registration.ep))) :
    EntriesRecorded (done ++ [registration]) (buildMatchmakingGhosts registration.account
      registration.ep registration.gradeAndBoardHistory storage.matchmakingGhosts).2 := by
  constructor
  · have bounded : ((storage.rivals (getEpBand registration.ep)).map Prod.fst).length ≤ 20 := by
      rw [List.length_map]
      exact recorded.size
    have bounded := @length_acceptLast_le _ _ 20 registration.account _ (by decide) bounded
    rw [Storage.rivals, ← buildMatchmakingGhosts_accounts, List.length_map] at bounded
    exact bounded
  · rw [buildMatchmakingGhosts_accounts]
    exact nodup_acceptLast recorded.distinct
  · intro entry member
    rcases mem_buildMatchmakingGhosts recorded.distinct member with rfl | ⟨different, old⟩
    · exact ⟨registration, latest_snoc_self, rfl⟩
    · rw [lastRegistration_snoc_of_ne different]
      exact recorded.last entry old

/-- The list of the contract is bounded, and every index has the last ghost of
the account there. -/
structure InfoRecorded (registrations : List (GhostRegistration AccountId)) (epBand : Nat)
    (contract : Contract AccountId) : Prop where
  bounded : InfoBounded (contract.bandInfo epBand)
  last : ∀ index num account, (contract.bandInfo epBand)[index]? = some (num, account) →
    ∃ registration, lastRegistration registrations account = some registration ∧
      registration.block = num ∧
      contract.matchmakingGhostByIndex (epBand, index) = some registration.ghost

/-- The entry with the smallest block number is that of the oldest account. -/
theorem InfoRecorded.oldest {contract : Contract AccountId} {index num : Nat}
    {account : AccountId} (recorded : InfoRecorded done epBand contract)
    (found : (contract.bandInfo epBand)[index]? = some (num, account))
    (least : ∀ entry ∈ contract.bandInfo epBand, num ≤ entry.1) :
    OldestAccount done ((contract.bandInfo epBand).map Prod.snd) account := by
  constructor
  · rw [List.mem_toFinset]
    exact List.mem_map_of_mem (List.mem_of_getElem? found)
  · intro other member own last recent recent'
    rw [List.mem_toFinset] at member
    obtain ⟨⟨block, other⟩, listed, rfl⟩ := List.mem_map.mp member
    obtain ⟨position, inside⟩ := List.mem_iff_getElem?.mp listed
    obtain ⟨_, first, rfl, _⟩ := recorded.last index num account found
    obtain ⟨_, second, rfl, _⟩ := recorded.last position block other inside
    cases recent.symm.trans first
    cases recent'.symm.trans second
    exact least _ listed

theorem InfoRecorded.add {before : Contract AccountId}
    (recorded : InfoRecorded done (getEpBand registration.ep) before) :
    ∃ after, before.addMatchmakingGhost registration.context registration.account registration.ep
        registration.gradeAndBoardHistory = .ok after ∧
      InfoRecorded (done ++ [registration]) (getEpBand registration.ep) after ∧
      ∃ victim, (registration.account ∉ (before.bandInfo (getEpBand registration.ep)).map Prod.snd →
          (before.bandInfo (getEpBand registration.ep)).length = 20 → OldestAccount done
            ((before.bandInfo (getEpBand registration.ep)).map Prod.snd) victim) ∧
        ((after.bandInfo (getEpBand registration.ep)).map Prod.snd).toFinset =
          accept 20 victim registration.account
            ((before.bandInfo (getEpBand registration.ep)).map Prod.snd).toFinset := by
  generalize band : getEpBand registration.ep = epBand at recorded ⊢
  obtain ⟨info, index, placed, facts⟩ := @placeMatchmakingGhost_placed _ _ registration.account
    registration.context.blockNumber _ recorded.bounded
  obtain ⟨inside, here⟩ := List.getElem?_eq_some_iff.mp facts.found
  have narrow : index % 256 = index := Nat.mod_eq_of_lt (Nat.lt_of_lt_of_le inside
    (Nat.le_trans facts.bounded.size (by decide)))
  let after : Contract AccountId := { before with
    matchmakingGhostsInfo := update before.matchmakingGhostsInfo epBand (some info)
    matchmakingGhostByIndex :=
      update before.matchmakingGhostByIndex (epBand, index % 256) (some registration.ghost) }
  have listed : after.bandInfo epBand = info := by
    simp only [after, Contract.bandInfo, Function.update_self, Option.getD_some]
  refine ⟨after, ?_, ⟨?_, ?_⟩, ?_⟩
  · simp only [Contract.addMatchmakingGhost, band, Result.bind_eq_ok_iff]
    exact ⟨_, placed, rfl⟩
  · rw [listed]
    exact facts.bounded
  · intro position num account found
    rw [listed] at found
    by_cases own : position = index
    · subst own
      cases facts.found.symm.trans found
      refine ⟨registration, latest_snoc_self, rfl, ?_⟩
      simp only [after, narrow, Function.update_self]
    · have different : account ≠ registration.account := by
        rintro rfl
        obtain ⟨bound, there⟩ := List.getElem?_eq_some_iff.mp found
        exact own (index_eq_of_key_eq facts.bounded.distinct bound inside (by rw [here, there]))
      rw [facts.others position own] at found
      obtain ⟨last, recent, block, ghost⟩ := recorded.last position num account found
      rw [lastRegistration_snoc_of_ne different]
      have apart : (epBand, position) ≠ (epBand, index) := fun same => own (Prod.mk.inj same).2
      refine ⟨last, recent, block, ?_⟩
      simp only [after, narrow, Function.update_of_ne apart, ghost]
  · obtain ⟨victim, oldest, accounts⟩ := placeMatchmakingGhost_accounts recorded.bounded placed
    refine ⟨victim, fun new full => ?_, ?_⟩
    · obtain ⟨position, num, found, least⟩ := oldest new full
      exact recorded.oldest found least
    · rw [listed]
      exact accounts

/-- Both stores are as recorded. -/
structure Recorded (registrations : List (GhostRegistration AccountId)) (epBand : Nat)
    (stores : Stores AccountId) : Prop where
  entries : EntriesRecorded registrations (stores.storage.rivals epBand)
  info : InfoRecorded registrations epBand stores.contract

/-- What a registration does to the accounts of both lists. -/
structure Accepts (registrations : List (GhostRegistration AccountId)) (epBand : Nat)
    (registration : GhostRegistration AccountId) (before after : Stores AccountId) : Prop where
  pallet : after.palletAccounts epBand =
    acceptLast 20 registration.account (before.palletAccounts epBand)
  contract : ∃ victim, (registration.account ∉ before.contractAccounts epBand →
      (before.contractAccounts epBand).length = 20 →
      OldestAccount registrations (before.contractAccounts epBand) victim) ∧
    (after.contractAccounts epBand).toFinset =
      accept 20 victim registration.account (before.contractAccounts epBand).toFinset

/-- A registration succeeds and is recorded by both. -/
theorem register_recorded {before : Stores AccountId} (recorded : Recorded done epBand before)
    (into : getEpBand registration.ep = epBand) :
    ∃ after, before.register registration = .ok after ∧
      Recorded (done ++ [registration]) epBand after ∧
      Accepts done epBand registration before after := by
  subst into
  obtain ⟨contract, added, info, victim, oldest, accounts⟩ := recorded.info.add
  let storage := before.storage.registerGhost registration.account registration.ep
    registration.gradeAndBoardHistory
  have entries : storage.rivals (getEpBand registration.ep) = (buildMatchmakingGhosts
      registration.account registration.ep registration.gradeAndBoardHistory
      before.storage.matchmakingGhosts).2 := registerGhost_rivals
  refine ⟨⟨storage, contract⟩, ?_, ⟨?_, info⟩, ?_, victim, ?_, accounts⟩
  · simp only [Stores.register, Result.bind_eq_ok_iff]
    exact ⟨contract, added, rfl⟩
  · rw [entries]
    exact recorded.entries.build
  · rw [Stores.palletAccounts, entries, buildMatchmakingGhosts_accounts]
    rfl
  · intro new full
    rw [Stores.contractAccounts, List.length_map] at full
    exact oldest new full

/-! ## Sequences of registrations -/

/-- The pallet and the contract keep the same rivals: at most 20, one of each
account, always its last ghost. -/
structure SameRivals (registrations : List (GhostRegistration AccountId)) (epBand : Nat)
    (stores : Stores AccountId) : Prop where
  same : stores.palletGhosts epBand = stores.contractGhosts epBand
  palletSize : (stores.storage.rivals epBand).length ≤ 20
  contractSize : (stores.contract.bandInfo epBand).length ≤ 20
  palletDistinct : (stores.palletAccounts epBand).Nodup
  contractDistinct : (stores.contractAccounts epBand).Nodup
  last : ∀ kept ∈ stores.palletGhosts epBand, ∃ registration,
    lastRegistration registrations kept.1 = some registration ∧ registration.ghost = kept.2

/-- A new account in a full list takes the place of the account whose last
registration is the oldest. -/
def EvictsOldest (registrations : List (GhostRegistration AccountId))
    (registration : GhostRegistration AccountId) (before after : List AccountId) : Prop :=
  registration.account ∉ before → before.length = 20 → ∃ victim,
    OldestAccount registrations before victim ∧
      after.toFinset = insert registration.account (before.toFinset.erase victim)

/-- If the registration of a new account finds a full list, the first account of
the list is the one whose last registration is the oldest. -/
def FrontOldest (registrations : List (GhostRegistration AccountId))
    (registration : GhostRegistration AccountId) (accounts : List AccountId) : Prop :=
  registration.account ∉ accounts → accounts.length = 20 → ∃ front, accounts.head? = some front ∧
    OldestAccount registrations accounts front

namespace Recorded

variable {before after stores : Stores AccountId}

theorem mem_palletGhosts_iff {kept : AccountId × Ghost} (recorded : Recorded done epBand stores) :
    kept ∈ stores.palletGhosts epBand ↔ kept.1 ∈ stores.palletAccounts epBand ∧ ∃ registration,
      lastRegistration done kept.1 = some registration ∧ registration.ghost = kept.2 := by
  constructor
  · rintro ⟨ep, listed⟩
    exact ⟨List.mem_map_of_mem listed, recorded.entries.last _ listed⟩
  · rintro ⟨member, registration, recent, ghost⟩
    obtain ⟨⟨account, ep, stored⟩, listed, own⟩ := List.mem_map.mp member
    obtain ⟨last, recent', ghost'⟩ := recorded.entries.last _ listed
    obtain ⟨player, rival⟩ := kept
    dsimp only at own recent recent' ghost ghost'
    subst own
    cases recent.symm.trans recent'
    exact ⟨ep, by rw [← ghost, ghost']; exact listed⟩

theorem mem_contractGhosts_iff {kept : AccountId × Ghost}
    (recorded : Recorded done epBand stores) :
    kept ∈ stores.contractGhosts epBand ↔ kept.1 ∈ stores.contractAccounts epBand ∧
      ∃ registration, lastRegistration done kept.1 = some registration ∧
        registration.ghost = kept.2 := by
  constructor
  · rintro ⟨index, num, listed, stored⟩
    obtain ⟨registration, recent, _, ghost⟩ := recorded.info.last _ _ _ listed
    exact ⟨List.mem_map_of_mem (List.mem_of_getElem? listed), registration, recent,
      Option.some.inj (ghost.symm.trans stored)⟩
  · rintro ⟨member, registration, recent, ghost⟩
    obtain ⟨⟨num, account⟩, listed, own⟩ := List.mem_map.mp member
    obtain ⟨index, found⟩ := List.mem_iff_getElem?.mp listed
    obtain ⟨last, recent', _, stored⟩ := recorded.info.last _ _ _ found
    obtain ⟨player, rival⟩ := kept
    dsimp only at own recent recent' ghost
    subst own
    cases recent.symm.trans recent'
    exact ⟨index, num, found, by rw [stored, ghost]⟩

/-- The ghosts are the same if the accounts are. -/
theorem ghosts_eq_iff (recorded : Recorded done epBand stores) :
    stores.palletGhosts epBand = stores.contractGhosts epBand ↔
      (stores.palletAccounts epBand).toFinset = (stores.contractAccounts epBand).toFinset := by
  constructor
  · intro same
    ext account
    rw [List.mem_toFinset, List.mem_toFinset]
    constructor
    · intro member
      obtain ⟨⟨_, ep, ghost⟩, listed, rfl⟩ := List.mem_map.mp member
      have kept : (_, ghost) ∈ stores.palletGhosts epBand := ⟨ep, listed⟩
      rw [same, recorded.mem_contractGhosts_iff] at kept
      exact kept.1
    · intro member
      obtain ⟨⟨num, _⟩, listed, rfl⟩ := List.mem_map.mp member
      obtain ⟨index, found⟩ := List.mem_iff_getElem?.mp listed
      obtain ⟨last, _, _, stored⟩ := recorded.info.last _ _ _ found
      have kept : (_, last.ghost) ∈ stores.contractGhosts epBand := ⟨index, num, found, stored⟩
      rw [← same, recorded.mem_palletGhosts_iff] at kept
      exact kept.1
  · intro same
    ext kept
    rw [recorded.mem_palletGhosts_iff, recorded.mem_contractGhosts_iff, ← List.mem_toFinset, same,
      List.mem_toFinset]

/-- Everything but the equality holds in every run. -/
theorem sameRivals_iff (recorded : Recorded done epBand stores) :
    SameRivals done epBand stores ↔
      (stores.palletAccounts epBand).toFinset = (stores.contractAccounts epBand).toFinset := by
  rw [← recorded.ghosts_eq_iff]
  constructor
  · intro rivals
    exact rivals.same
  · intro same
    exact {
      same
      palletSize := recorded.entries.size
      contractSize := recorded.info.bounded.size
      palletDistinct := recorded.entries.distinct
      contractDistinct := recorded.info.bounded.distinct
      last := fun kept member => (recorded.mem_palletGhosts_iff.mp member).2 }

end Recorded

/-- The list of a store that accepted an account from a full list. -/
theorem evictsOldest_of_accept {accounts accounts' : List AccountId} {victim : AccountId}
    (distinct : accounts.Nodup)
    (oldest : registration.account ∉ accounts → accounts.length = 20 →
      OldestAccount done accounts victim)
    (accepted : accounts'.toFinset = accept 20 victim registration.account accounts.toFinset) :
    EvictsOldest done registration accounts accounts' := by
  intro new full
  refine ⟨victim, oldest new full, ?_⟩
  have card : accounts.toFinset.card = 20 := by rw [List.toFinset_card_of_nodup distinct, full]
  rw [accepted, accept_of_le (by rwa [List.mem_toFinset]) (Nat.le_of_eq card.symm)]

section Step

variable {before after : Stores AccountId}

/-- A registration keeps the rivals the same exactly if its victim in the pallet
is the oldest account. -/
theorem register_sameRivals_iff
    (later : done.Pairwise fun earlier registration => earlier.block < registration.block)
    (into : getEpBand registration.ep = epBand) (recorded : Recorded done epBand before)
    (same : SameRivals done epBand before) (performed : before.register registration = .ok after) :
    SameRivals (done ++ [registration]) epBand after ↔
      FrontOldest done registration (before.palletAccounts epBand) := by
  obtain ⟨_, again, recorded', accepts⟩ := register_recorded recorded into
  cases performed.symm.trans again
  obtain ⟨victim, oldest, contract⟩ := accepts.contract
  have accounts := recorded.sameRivals_iff.mp same
  have length :
      (before.contractAccounts epBand).length = (before.palletAccounts epBand).length := by
    have card := congrArg Finset.card accounts
    rw [List.toFinset_card_of_nodup same.palletDistinct,
      List.toFinset_card_of_nodup same.contractDistinct] at card
    exact card.symm
  have oldest : registration.account ∉ before.palletAccounts epBand →
      (before.palletAccounts epBand).length = 20 →
      OldestAccount done (before.palletAccounts epBand) victim := by
    intro new full
    unfold OldestAccount at oldest ⊢
    rw [← List.mem_toFinset, accounts, List.mem_toFinset] at new
    rw [accounts]
    exact oldest new (length.trans full)
  have came : ∀ account ∈ (before.palletAccounts epBand).toFinset, ∃ last,
      lastRegistration done account = some last := by
    intro account member
    obtain ⟨entry, listed, rfl⟩ := List.mem_map.mp (List.mem_toFinset.mp member)
    obtain ⟨last, recent, _⟩ := recorded.entries.last entry listed
    exact ⟨last, recent⟩
  have size : (before.palletAccounts epBand).length ≤ 20 := by
    rw [Stores.palletAccounts, List.length_map]
    exact same.palletSize
  rw [recorded'.sameRivals_iff, accepts.pallet, contract, ← accounts]
  exact acceptLast_eq_accept_iff (by decide) same.palletDistinct size later came oldest

/-- Where the oldest account is at the front, both lists give up the oldest. -/
theorem register_evictsOldest (into : getEpBand registration.ep = epBand)
    (recorded : Recorded done epBand before)
    (front : FrontOldest done registration (before.palletAccounts epBand))
    (performed : before.register registration = .ok after) :
    EvictsOldest done registration (before.palletAccounts epBand)
        (after.palletAccounts epBand) ∧
      EvictsOldest done registration (before.contractAccounts epBand)
        (after.contractAccounts epBand) := by
  obtain ⟨_, again, _, accepts⟩ := register_recorded recorded into
  cases performed.symm.trans again
  obtain ⟨victim, oldest, contract⟩ := accepts.contract
  have pallet : (after.palletAccounts epBand).toFinset =
      accept 20 ((before.palletAccounts epBand).headD registration.account) registration.account
        (before.palletAccounts epBand).toFinset := by
    rw [accepts.pallet]
    exact toFinset_acceptLast recorded.entries.distinct
  refine ⟨evictsOldest_of_accept recorded.entries.distinct (fun new full => ?_) pallet,
    evictsOldest_of_accept recorded.info.bounded.distinct oldest contract⟩
  obtain ⟨account, first, least⟩ := front new full
  rw [List.headD_eq_head?_getD, first, Option.getD_some]
  exact least

end Step

section Runs

variable {stores after : Stores AccountId}

theorem recorded_nil (palletEmpty : stores.storage.matchmakingGhosts epBand = none)
    (contractEmpty : stores.contract.matchmakingGhostsInfo epBand = none) :
    Recorded [] epBand stores := by
  have entries : stores.storage.rivals epBand = [] := by
    rw [Storage.rivals, palletEmpty, Option.getD_none]
  have info : stores.contract.bandInfo epBand = [] := by
    rw [Contract.bandInfo, contractEmpty, Option.getD_none]
  refine ⟨?_, ?_, ?_⟩
  · rw [entries]
    exact ⟨Nat.zero_le _, List.nodup_nil, fun _ member => (List.not_mem_nil member).elim⟩
  · rw [info]
    exact ⟨Nat.zero_le _, List.nodup_nil⟩
  · rw [info]
    intro index num account found
    cases found

/-- Every sequence of registrations succeeds and is recorded. -/
theorem registerAll_recorded (into : ∀ registration ∈ done, getEpBand registration.ep = epBand)
    (initial : Recorded [] epBand stores) :
    ∃ after, stores.registerAll done = .ok after ∧ Recorded done epBand after := by
  induction done using List.reverseRecOn with
  | nil => exact ⟨stores, rfl, initial⟩
  | append_singleton done registration ih =>
      obtain ⟨before, reached, recorded⟩ :=
        ih fun registration member => into registration (List.mem_append_left _ member)
      obtain ⟨after, performed, recorded', _⟩ :=
        register_recorded recorded (into registration (by simp))
      refine ⟨after, ?_, recorded'⟩
      rw [Stores.registerAll, ← Runs.reaches_foldlM_iff]
      exact .step (Runs.reaches_foldlM_iff.mpr reached) performed

/-- From empty bands, the rivals are the same after all prefixes of a sequence
of registrations, and every new account takes the place of the oldest one of a
full list, exactly if every new account finds the oldest one at the front of the
full list of the pallet. -/
theorem same_rivals_iff {registrations : List (GhostRegistration AccountId)}
    (into : ∀ registration ∈ registrations, getEpBand registration.ep = epBand)
    (later : registrations.Pairwise fun earlier registration => earlier.block < registration.block)
    (palletEmpty : stores.storage.matchmakingGhosts epBand = none)
    (contractEmpty : stores.contract.matchmakingGhostsInfo epBand = none) :
    (∃ last, stores.registerAll registrations = .ok last) ∧
    ((∀ done rest after, registrations = done ++ rest → stores.registerAll done = .ok after →
        SameRivals done epBand after) ∧
      (∀ done registration rest before after, registrations = done ++ registration :: rest →
        stores.registerAll done = .ok before → before.register registration = .ok after →
        EvictsOldest done registration (before.palletAccounts epBand)
          (after.palletAccounts epBand) ∧
        EvictsOldest done registration (before.contractAccounts epBand)
          (after.contractAccounts epBand)) ↔
      ∀ done registration rest before, registrations = done ++ registration :: rest →
        stores.registerAll done = .ok before →
        FrontOldest done registration (before.palletAccounts epBand)) := by
  have initial := recorded_nil palletEmpty contractEmpty
  obtain ⟨last, reached, _⟩ := registerAll_recorded into initial
  refine ⟨⟨last, reached⟩, ?_⟩
  have recordedAt : ∀ {done rest : List (GhostRegistration AccountId)} {before : Stores AccountId},
      registrations = done ++ rest → stores.registerAll done = .ok before →
        Recorded done epBand before := by
    intro done rest before whole reached
    obtain ⟨_, again, recorded⟩ := registerAll_recorded
      (fun registration member => into registration (whole ▸ List.mem_append_left _ member)) initial
    cases reached.symm.trans again
    exact recorded
  have intoAt : ∀ {done registration rest}, registrations = done ++ registration :: rest →
      getEpBand registration.ep = epBand :=
    fun whole => into _ (by rw [whole]; simp)
  have rivals_iff := @Runs.invariant_iff _ _
    (fun before registration after => Stores.register before registration = .ok after) stores
    (fun done after => SameRivals done epBand after)
    (fun done before registration => FrontOldest done registration (before.palletAccounts epBand))
    registrations (initial.sameRivals_iff.mpr (by
      rw [Stores.palletAccounts, Stores.contractAccounts, Storage.rivals, Contract.bandInfo,
        palletEmpty, contractEmpty]
      rfl))
    (fun whole reached same performed => register_sameRivals_iff
      (later.sublist (whole ▸ List.sublist_append_left _ _)) (intoAt whole)
      (recordedAt whole (Runs.reaches_foldlM_iff.mp reached)) same performed)
  simp only [Runs.reaches_foldlM_iff] at rivals_iff
  constructor
  · rintro ⟨same, _⟩ done registration rest before whole reached
    obtain ⟨after, performed, _⟩ := register_recorded (recordedAt whole reached) (intoAt whole)
    exact rivals_iff.mp same done registration rest before after whole reached performed
  · intro fronts
    refine ⟨rivals_iff.mpr fun done registration rest before after whole reached _ =>
      fronts done registration rest before whole reached, ?_⟩
    intro done registration rest before after whole reached performed
    exact register_evictsOldest (intoAt whole) (recordedAt whole reached)
      (fronts done registration rest before whole reached) performed

end Runs

section Refreshed

/-- The account registers in the block, in the band of 300. -/
def registerAt (block account : Nat) : GhostRegistration Nat where
  context := { caller := account, callerIsOrigin := true, blockNumber := block, blockTimestamp := 0 }
  ep := 300
  gradeAndBoardHistory := []

def emptyStores : Stores Nat where
  storage := genesis
  contract := Contract.new 0

/-- Twenty accounts fill the band, the first of them registers once more, and a
new one comes. -/
def refreshed : List (GhostRegistration Nat) :=
  (List.range 20).map (fun account => registerAt account account) ++
    [registerAt 20 0, registerAt 21 20]

theorem refreshed_run : ∃ last, emptyStores.registerAll refreshed = .ok last ∧
    last.palletAccounts 3 = (List.range 21).tail ∧
    last.contractAccounts 3 = 0 :: 20 :: (List.range 20).drop 2 := ⟨_, rfl, rfl, rfl⟩

/-- The pallet gives up the account that registered last before the new one, and
the contract the one that registered second. -/
theorem refreshed_account_evicted :
    (∀ registration ∈ refreshed, getEpBand registration.ep = 3) ∧
      (refreshed.Pairwise fun earlier registration => earlier.block < registration.block) ∧
      emptyStores.storage.matchmakingGhosts 3 = none ∧
      emptyStores.contract.matchmakingGhostsInfo 3 = none ∧
      ∃ last, emptyStores.registerAll refreshed = .ok last ∧
        0 ∉ last.palletAccounts 3 ∧ 0 ∈ last.contractAccounts 3 ∧
        ¬ SameRivals refreshed 3 last := by
  refine ⟨by decide, by decide, rfl, rfl, ?_⟩
  obtain ⟨last, reached, pallet, contract⟩ := refreshed_run
  have gone : 0 ∉ last.palletAccounts 3 := by
    rw [pallet]
    decide
  have kept : 0 ∈ last.contractAccounts 3 := by
    rw [contract]
    decide
  refine ⟨last, reached, gone, kept, fun rivals => gone ?_⟩
  have initial : Recorded [] 3 emptyStores := recorded_nil rfl rfl
  obtain ⟨_, again, recorded⟩ := @registerAll_recorded _ _ refreshed _ _ (by decide) initial
  cases reached.symm.trans again
  have accounts := recorded.sameRivals_iff.mp rivals
  rw [← List.mem_toFinset, accounts, List.mem_toFinset]
  exact kept

/-- The sixth account of the full band registers once more, and a new one comes. -/
def refreshedLater : List (GhostRegistration Nat) :=
  (List.range 20).map (fun account => registerAt account account) ++
    [registerAt 20 5, registerAt 21 20]

/-- The account at the front of the full list is the oldest one, and both lists
give it up for the new account. -/
theorem same_rivals_iff_refreshedLater :
    ∃ last, emptyStores.registerAll refreshedLater = .ok last ∧
      SameRivals refreshedLater 3 last ∧ last.palletAccounts 3 = (List.range 21).tail := by
  obtain ⟨⟨last, reached⟩, rivals_iff⟩ := @same_rivals_iff Nat _ 3 emptyStores refreshedLater
    (by decide) (by decide) rfl rfl
  have accounts : ∃ last, emptyStores.registerAll refreshedLater = .ok last ∧
      last.palletAccounts 3 = (List.range 21).tail := ⟨_, rfl, rfl⟩
  obtain ⟨_, again, accounts⟩ := accounts
  cases reached.symm.trans again
  refine ⟨last, reached, (rivals_iff.mpr ?_).1 _ [] last (List.append_nil _).symm reached, accounts⟩
  -- Only the last registration is that of a new account into a full list.
  have checked : ∀ place < 22,
      (emptyStores.registerAll (refreshedLater.take place)).toOption.all fun before =>
        refreshedLater[place]?.all fun registration =>
          registration.account ∈ before.palletAccounts 3 ∨
            (before.palletAccounts 3).length ≠ 20 ∨
            place = 21 ∧ before.palletAccounts 3 = List.range 20 := by
    decide +kernel
  intro done registration rest before whole reached new full
  have placed : refreshedLater[done.length]? = some registration := by
    rw [whole, List.getElem?_append_right le_rfl, Nat.sub_self, List.getElem?_cons_zero]
  have taken : refreshedLater.take done.length = done := by
    rw [whole, List.take_left]
  have bound : done.length < refreshedLater.length := (List.getElem?_eq_some_iff.mp placed).1
  have met := checked done.length bound
  rw [taken, reached, placed] at met
  obtain known | short | ⟨atEnd, listed⟩ := of_decide_eq_true met
  · exact absurd known new
  · exact absurd full short
  rw [atEnd] at taken
  refine ⟨0, by rw [listed]; rfl, ?_, ?_⟩
  · rw [listed]
    decide
  · intro other _ own last found _
    have first : lastRegistration done 0 = some (registerAt 0 0) := by
      rw [← taken]
      rfl
    cases found.symm.trans first
    exact Nat.zero_le _

end Refreshed

end EmojiBattler.Pallet
