import EmojiBattler.Tools.CodecTypes

/-! # The definitions of `codecTypesDefs.ts` -/

namespace EmojiBattler.Tools.CodecTypesDefs

open Scale

def named (path : List String) : Ty Path := .ref (path.map String.toList)

def u8 : Ty Path := named ["u8"]

def u16 : Ty Path := named ["u16"]

def u32 : Ty Path := named ["u32"]

def bool : Ty Path := named ["bool"]

def texts (params : List (String × Ty Path)) : List (Text × Ty Path) :=
  params.map fun (k, v) => (k.toList, v)

def mod (name : String) (params : List (AnyDef (Ty Path))) : AnyDef (Ty Path) :=
  .mod name.toList params

def struct (name : String) (params : List (String × Ty Path)) : AnyDef (Ty Path) :=
  .struct name.toList (texts params)

def tuple (name : String) (params : List (Ty Path)) : AnyDef (Ty Path) :=
  .tuple name.toList params

def enum (name : String) (params : List (Variant (Ty Path))) : AnyDef (Ty Path) :=
  .enum name.toList params

def unit (name : String) : Variant (Ty Path) := ⟨name.toList, none⟩

def withFields (name : String) (params : List (String × Ty Path)) : Variant (Ty Path) :=
  ⟨name.toList, some (.struct (texts params))⟩

def withTypes (name : String) (params : List (Ty Path)) : Variant (Ty Path) :=
  ⟨name.toList, some (.tuple params)⟩

def mtc : AnyDef (Ty Path) :=
  mod "mtc" [
    struct "Emo" [("id", u16), ("base_id", u16)],
    struct "GradeAndBoard" [("grade", u8), ("board", named ["mtc", "Board"])],
    tuple "Board" [.vec (named ["mtc", "BoardEmo"])],
    struct "BoardEmo" [("mtc_emo_ids", .vec u16), ("base_id", u16),
      ("attributes", named ["emo", "Attributes"])],
    struct "Ghost" [("history", .vec (named ["mtc", "GradeAndGhostBoard"]))],
    struct "GradeAndGhostBoard" [("grade", u8), ("board", named ["mtc", "GhostBoard"])],
    tuple "GhostBoard" [.vec (named ["mtc", "GhostBoardEmo"])],
    struct "GhostBoardEmo" [("base_id", u16), ("attributes", named ["emo", "Attributes"])],
    enum "GhostState" [
      withFields "Active" [("health", u8)],
      withFields "Retired" [("final_turn", u8)]],
    mod "shop" [
      tuple "Catalog" [.vec (named ["mtc", "shop", "CatalogLine"])],
      tuple "CatalogLine" [.vec (named ["mtc", "Emo"])],
      enum "PlayerOperation" [
        withFields "Buy" [("mtc_emo_id", u16), ("index", u8)],
        withFields "Sell" [("index", u8)],
        withFields "Move" [("indexes", .vec u8)],
        unit "NextCatalogLine",
        unit "Upgrade"],
      tuple "BoardLogs" [.vec (named ["mtc", "shop", "BoardLog"])],
      enum "BoardLog" [
        withFields "Add" [("index", u8), ("board_emo", named ["mtc", "BoardEmo"])],
        withFields "Remove" [("index", u8)],
        withFields "Move" [("from_index", u8), ("to_index", u8)],
        withFields "IncreaseStats" [("index", u8), ("attack", u16), ("health", u16),
          ("calculated_attack", u16), ("calculated_health", u16)],
        withFields "AddAbility" [("index", u8), ("ability", named ["emo", "ability", "Ability"]),
          ("is_target_triple", bool)],
        withFields "Triple" [("removed_indexes", .vec u8)]]],
    mod "battle" [
      tuple "Logs" [.vec (named ["mtc", "battle", "Log"])],
      enum "Log" [
        withFields "Attack" [("attack_player_index", u8), ("attack_emo_index", u8),
          ("defense_emo_index", u8)],
        withFields "Damage" [("player_index", u8), ("emo_index", u8), ("damage", u16),
          ("health", u16)],
        withFields "Remove" [("player_index", u8), ("emo_index", u8)],
        withFields "Add" [("player_index", u8), ("emo_index", u8), ("base_id", u16),
          ("attributes", named ["emo", "Attributes"])],
        withFields "IncreaseStats" [("player_index", u8), ("emo_index", u8), ("attack", u16),
          ("health", u16), ("calculated_attack", u16), ("calculated_health", u16)],
        withFields "DecreaseStats" [("player_index", u8), ("emo_index", u8), ("attack", u16),
          ("health", u16), ("calculated_attack", u16), ("calculated_health", u16)],
        withFields "AddBattleAbility" [("player_index", u8), ("emo_index", u8),
          ("ability", named ["emo", "ability", "battle", "Battle"]), ("is_emo_triple", bool)],
        withFields "RemoveBattleAbility" [("player_index", u8), ("emo_index", u8),
          ("ability_index", u8), ("ability", named ["emo", "ability", "battle", "Battle"])]]],
    mod "storage" [
      struct "PlayerMutable" [("health", u8),
        ("grade_and_board_history", .vec (named ["mtc", "GradeAndBoard"])),
        ("upgrade_coin", .option u8), ("ghost_states", .vec (named ["mtc", "GhostState"])),
        ("battle_ghost_index", u8)]]]

def emo : AnyDef (Ty Path) :=
  mod "emo" [
    tuple "Bases" [.btreeMap u16 (named ["emo", "Base"])],
    struct "Base" [("id", u16), ("typ", named ["emo", "Typ"]), ("codepoint", u32), ("grade", u8),
      ("attack", u16), ("health", u16),
      ("abilities", .vec (named ["emo", "ability", "Ability"]))],
    enum "Typ" [unit "Human", unit "Nature", unit "Food", unit "Object"],
    struct "Attributes" [("attack", u16), ("health", u16),
      ("abilities", .vec (named ["emo", "ability", "Ability"])), ("is_triple", bool)],
    mod "ability" [
      enum "Ability" [
        withTypes "Shop" [named ["emo", "ability", "shop", "Shop"]],
        withTypes "Battle" [named ["emo", "ability", "battle", "Battle"]]],
      mod "shop" [
        enum "Shop" [
          withTypes "Pre" [named ["emo", "ability", "shop", "Pre"]],
          withTypes "Peri" [named ["emo", "ability", "shop", "Peri"]],
          withTypes "Special" [named ["emo", "ability", "shop", "Special"]]],
        enum "Pre" [
          withTypes "Normal" [named ["emo", "ability", "shop", "NormalAction"]],
          withTypes "Random" [named ["emo", "ability", "shop", "RandomAction"]]],
        enum "Peri" [
          withFields "AsOneself" [
            ("trigger", named ["emo", "ability", "shop", "PeriAsOneselfTrigger"]),
            ("action", named ["emo", "ability", "shop", "NormalAction"])],
          withFields "AsAlly" [
            ("trigger", named ["emo", "ability", "shop", "PeriAsAllyTrigger"]),
            ("action", named ["emo", "ability", "shop", "PeriAsAllyAction"])]],
        enum "Special" [unit "Placeholder"],
        enum "PeriAsOneselfTrigger" [
          unit "Set",
          unit "Sell",
          withFields "AllySet" [
            ("typ_and_triple", named ["emo", "ability", "TypOptAndIsTripleOpt"])]],
        enum "PeriAsAllyTrigger" [
          withFields "AllySet" [
            ("typ_and_triple", named ["emo", "ability", "TypOptAndIsTripleOpt"])]],
        enum "PeriAsAllyAction" [
          withTypes "OneselfTripleNormal" [named ["emo", "ability", "shop", "NormalAction"]],
          withTypes "Custom" [named ["emo", "ability", "shop", "AsAllyAction"]]],
        enum "NormalAction" [
          withFields "SetEmo" [("base_id", u16)],
          withFields "IncreaseStats" [("target", named ["emo", "ability", "Target"]),
            ("attack", u16), ("health", u16)],
          withFields "IncreaseStatsByEmoCount" [("target", named ["emo", "ability", "Target"]),
            ("count_condition", named ["emo", "ability", "TypOptAndIsTripleOpt"]),
            ("attack", u16), ("health", u16)],
          withFields "IncreaseStatsByGrade" [("target", named ["emo", "ability", "Target"]),
            ("attack", u16), ("health", u16)],
          withFields "IncreaseStatsOfAdjacentMenagerie" [("attack", u16), ("health", u16)],
          withFields "AddAbility" [("target", named ["emo", "ability", "Target"]),
            ("ability", .box (named ["emo", "ability", "Ability"]))],
          withFields "GetCoin" [("coin", u8)],
          withFields "GetCoinByEmoCountDiv" [
            ("count_condition", named ["emo", "ability", "TypOptAndIsTripleOpt"]),
            ("divisor", u8)]],
        enum "RandomAction" [
          withFields "IncreaseStatsOfMenagerie" [("typ_count", u8), ("attack", u16),
            ("health", u16)]],
        enum "AsAllyAction" [unit "TriggerSetActions"]],
      mod "battle" [
        enum "Battle" [
          withTypes "General" [named ["emo", "ability", "battle", "General"]],
          withTypes "Special" [named ["emo", "ability", "battle", "Special"]]],
        enum "General" [
          withFields "AsOneself" [
            ("trigger", named ["emo", "ability", "battle", "GeneralAsOneselfTrigger"]),
            ("action", named ["emo", "ability", "battle", "NormalAction"])],
          withFields "AsAlly" [
            ("trigger", named ["emo", "ability", "battle", "GeneralAsAllyTrigger"]),
            ("action", named ["emo", "ability", "battle", "GeneralAsAllyAction"])]],
        enum "Special" [unit "Shield", unit "Attractive", unit "AttackLowestAttack"],
        enum "GeneralAsOneselfTrigger" [
          unit "Pre",
          unit "Retire",
          withFields "AllyRetire" [
            ("typ_and_triple", named ["emo", "ability", "TypOptAndIsTripleOpt"])],
          withFields "RivalRetire" [
            ("typ_and_triple", named ["emo", "ability", "TypOptAndIsTripleOpt"])],
          withFields "AllyBattleAbilityRemoved" [
            ("typ_and_triple", named ["emo", "ability", "TypOptAndIsTripleOpt"]),
            ("excludes_same_base", bool),
            ("ability", .box (named ["emo", "ability", "battle", "Battle"]))]],
        enum "GeneralAsAllyTrigger" [
          withFields "AllySet" [
            ("typ_and_triple", named ["emo", "ability", "TypOptAndIsTripleOpt"])],
          withFields "AllyRetire" [
            ("typ_and_triple", named ["emo", "ability", "TypOptAndIsTripleOpt"])]],
        enum "GeneralAsAllyAction" [
          withTypes "OneselfTripleNormal" [named ["emo", "ability", "battle", "NormalAction"]],
          withTypes "Custom" [named ["emo", "ability", "battle", "AsAllyAction"]]],
        enum "NormalAction" [
          withFields "SetEmo" [("side", named ["emo", "ability", "Side"]), ("base_id", u16)],
          withFields "SetEmosByAttackDiv" [("side", named ["emo", "ability", "Side"]),
            ("base_id", u16), ("divisor", u8)],
          withFields "IncreaseStats" [
            ("target_or_random", named ["emo", "ability", "TargetOrRandom"]), ("attack", u16),
            ("health", u16)],
          withFields "DecreaseStats" [
            ("target_or_random", named ["emo", "ability", "TargetOrRandom"]), ("attack", u16),
            ("health", u16)],
          withFields "IncreaseStatsByEmoCount" [("side", named ["emo", "ability", "Side"]),
            ("target_or_random", named ["emo", "ability", "TargetOrRandom"]),
            ("count_condition", named ["emo", "ability", "TypOptAndIsTripleOpt"]),
            ("attack", u16), ("health", u16)],
          withFields "AddBattleAbility" [
            ("target_or_random", named ["emo", "ability", "TargetOrRandom"]),
            ("ability", .box (named ["emo", "ability", "battle", "Battle"]))],
          withFields "DamageAll" [("side", named ["emo", "ability", "Side"]), ("damage", u16)]],
        enum "AsAllyAction" [unit "TriggerRetireActions"]],
      enum "TargetOrRandom" [
        withTypes "Target" [named ["emo", "ability", "Target"]],
        withFields "Random" [
          ("typ_and_triple", named ["emo", "ability", "TypOptAndIsTripleOpt"]), ("count", u8)]],
      enum "Target" [
        unit "Oneself",
        withFields "Others" [("destination", named ["emo", "ability", "Destination"]),
          ("typ_and_triple", named ["emo", "ability", "TypOptAndIsTripleOpt"])]],
      enum "Destination" [unit "Left", unit "Right", unit "All"],
      struct "TypOptAndIsTripleOpt" [("typ_opt", .option (named ["emo", "Typ"])),
        ("is_triple_opt", .option bool)],
      enum "Side" [unit "Ally", unit "Rival"]]]

def defs : List (AnyDef (Ty Path)) := [mtc, emo]

end EmojiBattler.Tools.CodecTypesDefs
