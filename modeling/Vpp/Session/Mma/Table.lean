import Vpp.Schemes.Pool
import Vpp.Schemes.Ternary

/-! Session rules: mask, match, action (`vnet/session/mma_template.c`).

    The rules of a table are a tree over a pool; a rule has the indices of the rules below it. The width of mask and
    match, `MMA_RT_TYPE` bytes, is a parameter. Lookup follows the first rule that matches, down to one with no matching
    rule below it:

        root  *               add: below the rule that a lookup of the new match returns
         |- a   1***          del: the rules below take the place of the rule
         |   |- b  10**
         |- c   0***

    The functions are recursive along the tree; a bound on the depth is given, and `tooDeep` is returned when it is
    reached. The number of slots of the pool is bound enough. -/

namespace Vpp.Session
open Vpp.Schemes

structure MmaRule (w : ℕ) extends Pattern w where
  actionIndex : ℕ
  nextIndices : List ℕ
  maxMatch : BitVec w
deriving DecidableEq

/-- `mma_rules_table_t`; of `rule_cmp_fn` it is asked whether it is negative -/
structure MmaRulesTable (w : ℕ) where
  rootIndex : ℕ
  rules : Pool (MmaRule w)
  ruleCmpFn : MmaRule w → MmaRule w → Bool

inductive MmaFault where
  | noRule | tooDeep
deriving DecidableEq

variable {w : ℕ}

/-- `MMA_TABLE_INVALID_INDEX`, as an action -/
def mmaTableInvalidIndex : ℕ := 2 ^ 32 - 1

def ruleIsExactMatch (key r : MmaRule w) : Bool := key.value = r.value ∧ key.mask = r.mask

def ruleIsMatchForKey (key : BitVec w) (r : MmaRule w) : Bool := key &&& r.mask = r.value

namespace MmaRulesTable

/-- `mma_rules_table_get_rule` -/
def getRule (srt : MmaRulesTable w) (i : ℕ) : Except MmaFault (MmaRule w) :=
  match srt.rules.get? i with
  | some r => .ok r
  | none => .error .noRule

def setRule (srt : MmaRulesTable w) (i : ℕ) (r : MmaRule w) : MmaRulesTable w :=
  { srt with rules := srt.rules.set i r }

/-- `mma_rule_free` -/
def freeRule (srt : MmaRulesTable w) (i : ℕ) : MmaRulesTable w := { srt with rules := srt.rules.put i }

/-- The bound on the depth. -/
def depth (srt : MmaRulesTable w) : ℕ := srt.rules.slots.length

end MmaRulesTable

/-! ### Lookup -/

/-- The loop of `mma_rules_table_lookup_rule`: the first index found, or `ruleIndex` itself. -/
def lookupNext (lookup : ℕ → Except MmaFault (Option ℕ)) (ruleIndex : ℕ) :
    List ℕ → Except MmaFault (Option ℕ)
  | [] => .ok (some ruleIndex)
  | i :: is =>
    match lookup i with
    | .error e => .error e
    | .ok (some rv) => .ok (some rv)
    | .ok none => lookupNext lookup ruleIndex is

/-- `mma_rules_table_lookup_rule` down to a depth; `none` is `MMA_TABLE_INVALID_INDEX` -/
def lookupRuleTo (srt : MmaRulesTable w) (key : BitVec w) : ℕ → ℕ → Except MmaFault (Option ℕ)
  | 0, _ => .error .tooDeep
  | depth + 1, ruleIndex =>
    match srt.getRule ruleIndex with
    | .error e => .error e
    | .ok rp =>
      if ruleIsMatchForKey key rp then lookupNext (lookupRuleTo srt key depth) ruleIndex rp.nextIndices else .ok none

def mmaRulesTableLookupRule (srt : MmaRulesTable w) (key : BitVec w) (ruleIndex : ℕ) : Except MmaFault (Option ℕ) :=
  lookupRuleTo srt key srt.depth ruleIndex

/-! ### Addition -/

/-- The loop of `mma_rules_table_add_rule` over the children of the parent: what goes below the rule, and what is below
    the parent in the end. -/
def placeAmong (srt : MmaRulesTable w) (rule : MmaRule w) (ruleIndex : ℕ) :
    List ℕ → Bool → Except MmaFault (List ℕ × List ℕ)
  | [], added => .ok ([], if added then [] else [ruleIndex])
  | i :: is, added =>
    match srt.getRule i with
    | .error e => .error e
    | .ok child =>
      if ruleIsMatchForKey child.value rule then
        match placeAmong srt rule ruleIndex is true with
        | .error e => .error e
        | .ok (below, next) => .ok (i :: below, if added then next else ruleIndex :: next)
      else
        let first := !added && srt.ruleCmpFn rule child
        match placeAmong srt rule ruleIndex is (added || first) with
        | .error e => .error e
        | .ok (below, next) => .ok (below, if first then ruleIndex :: i :: next else i :: next)

/-- `mma_rules_table_add_rule`, on a rule that has been allocated -/
def mmaRulesTableAddRule (srt : MmaRulesTable w) (ruleIndex : ℕ) : Except MmaFault (MmaRulesTable w) :=
  match srt.getRule ruleIndex with
  | .error e => .error e
  | .ok rule =>
    match mmaRulesTableLookupRule srt rule.value srt.rootIndex with
    | .error e => .error e
    | .ok none => .error .noRule
    | .ok (some parentIndex) =>
      match srt.getRule parentIndex with
      | .error e => .error e
      | .ok parent =>
        if ruleIsExactMatch rule parent then
          .ok ((srt.setRule parentIndex { parent with actionIndex := rule.actionIndex }).freeRule ruleIndex)
        else if parent.nextIndices.length = 0 then
          .ok (srt.setRule parentIndex { parent with nextIndices := parent.nextIndices ++ [ruleIndex] })
        else
          match placeAmong srt rule ruleIndex parent.nextIndices false with
          | .error e => .error e
          | .ok (below, next) =>
            .ok ((srt.setRule ruleIndex { rule with nextIndices := rule.nextIndices ++ below }).setRule parentIndex
              { parent with nextIndices := next })

/-! ### Deletion -/

/-- What `mma_rules_table_del_rule` returns: `MMA_TABLE_INVALID_INDEX`, 1 for the rule itself, 0 once it is done. -/
inductive DelRule where
  | invalid | itself | done
deriving DecidableEq

/-- The loop of `mma_rules_table_del_rule` over the children of a rule, with those it has passed. -/
def delNext (del : MmaRulesTable w → ℕ → Except MmaFault (DelRule × MmaRulesTable w)) (ruleIndex : ℕ) :
    List ℕ → List ℕ → MmaRulesTable w → Except MmaFault (DelRule × MmaRulesTable w)
  | _, [], srt => .ok (.invalid, srt)
  | passed, i :: is, srt =>
    match del srt i with
    | .error e => .error e
    | .ok (.done, srt) => .ok (.done, srt)
    | .ok (.invalid, srt) => delNext del ruleIndex (passed ++ [i]) is srt
    | .ok (.itself, srt) =>
      match srt.getRule i, srt.getRule ruleIndex with
      | .ok child, .ok rp =>
        .ok (.done, (srt.freeRule i).setRule ruleIndex
          { rp with nextIndices := passed ++ child.nextIndices ++ is })
      | .error e, _ => .error e
      | _, .error e => .error e

/-- `mma_rules_table_del_rule` down to a depth -/
def delRuleTo (rule : MmaRule w) : ℕ → MmaRulesTable w → ℕ → Except MmaFault (DelRule × MmaRulesTable w)
  | 0, _, _ => .error .tooDeep
  | depth + 1, srt, ruleIndex =>
    match srt.getRule ruleIndex with
    | .error e => .error e
    | .ok rp =>
      if !ruleIsMatchForKey rule.value rp then .ok (.invalid, srt)
      else if ruleIsExactMatch rule rp then
        .ok (.itself, if ruleIndex = srt.rootIndex then
            srt.setRule ruleIndex { rp with actionIndex := mmaTableInvalidIndex }
          else srt)
      else delNext (delRuleTo rule depth) ruleIndex [] rp.nextIndices srt

def mmaRulesTableDelRule (srt : MmaRulesTable w) (rule : MmaRule w) : Except MmaFault (MmaRulesTable w) :=
  match delRuleTo rule srt.depth srt srt.rootIndex with
  | .error e => .error e
  | .ok (_, srt) => .ok srt

/-! ### Commands -/

/-- What a table is asked to do; a rule to be added is allocated first, with no rules below it. -/
inductive MmaCmd (w : ℕ) where
  | add (rule : Pattern w) (actionIndex : ℕ) (maxMatch : BitVec w)
  | del (rule : Pattern w)

/-- A rule with nothing below it. -/
def MmaRule.init (p : Pattern w) (actionIndex : ℕ) (maxMatch : BitVec w) : MmaRule w :=
  { p with actionIndex := actionIndex, nextIndices := [], maxMatch := maxMatch }

def MmaCmd.exec (srt : MmaRulesTable w) : MmaCmd w → Except MmaFault (MmaRulesTable w)
  | .add p actionIndex maxMatch =>
    let (rules, ruleIndex) := srt.rules.alloc (.init p actionIndex maxMatch)
    mmaRulesTableAddRule { srt with rules := rules } ruleIndex
  | .del p => mmaRulesTableDelRule srt (.init p 0 0)

/-- `session_rules_table_init`: a table with a root that matches everything. -/
def MmaRulesTable.init (ruleCmpFn : MmaRule w → MmaRule w → Bool) (actionIndex : ℕ) (maxMatch : BitVec w) :
    MmaRulesTable w where
  rootIndex := 0
  rules := (Pool.empty.alloc (.init (.top w) actionIndex maxMatch)).1
  ruleCmpFn := ruleCmpFn

end Vpp.Session
