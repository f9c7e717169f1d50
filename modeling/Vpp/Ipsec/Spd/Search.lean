import Vpp.Schemes.Leaders
import Vpp.Ipsec.Spd.Lookup
import Vpp.Ipsec.Spd.Runs

/-! What the searches for a policy return.

    The linear search returns the first policy that selects the packet, so one of the highest priority. The
    fast path takes from each bucket that a mask leads to the first policy that passes its test, which leads
    its bucket, and compares these leaders as unsigned numbers, starting from zero. -/

namespace Vpp.Ipsec
open Vpp.Schemes Vpp.Vppinfra List

/-- The priority of a policy that was found. -/
def foundPriority (c : ℕ × IpsecPolicy) : BitVec 32 := c.2.priority

/-! ### What the searches return -/

section
variable {policies : Pool IpsecPolicy} {hit : IpsecPolicy → Bool} {ids : List ℕ}

/-- The first of the policies that selects the packet. -/
def FirstHit (policies : Pool IpsecPolicy) (hit : IpsecPolicy → Bool) (ids : List ℕ) :
    Option (ℕ × IpsecPolicy) → Prop
  | none => ∀ i ∈ ids, ∀ p, policies.get? i = some p → hit p = false
  | some (i, p) => ∃ l₁ l₂, ids = l₁ ++ i :: l₂ ∧ policies.get? i = some p ∧ hit p = true ∧
      ∀ j ∈ l₁, ∀ q, policies.get? j = some q → hit q = false

theorem linearSearch_spec (hlive : ∀ i ∈ ids, (policies.get? i).isSome) :
    ∃ r, linearSearch policies hit ids = .ok r ∧ FirstHit policies hit ids r := by
  induction ids with
  | nil => exact ⟨none, rfl, by simp [FirstHit]⟩
  | cons i is ih =>
    obtain ⟨p, hp⟩ := Option.isSome_iff_exists.mp (hlive i mem_cons_self)
    by_cases hhit : hit p = true
    · refine ⟨some (i, p), ?_, [], is, rfl, hp, hhit, by simp⟩
      rw [linearSearch, hp, deref_some, bind_ok, if_pos hhit]; rfl
    · obtain ⟨r, hr, hfirst⟩ := ih fun j hj => hlive j (mem_cons_of_mem i hj)
      have hmiss : hit p = false := Bool.eq_false_iff.mpr hhit
      refine ⟨r, ?_, ?_⟩
      · rw [linearSearch, hp, deref_some, bind_ok, if_neg hhit, hr]
      · match r with
        | none => exact forall_live_cons hp hmiss hfirst
        | some (k, q) =>
          obtain ⟨l₁, l₂, hsplit, hget, hq, hbefore⟩ := hfirst
          exact ⟨i :: l₁, l₂, by rw [hsplit]; rfl, hget, hq, forall_live_cons hp hmiss hbefore⟩

/-- In descending order the first hit has the highest priority of those in the vector. -/
theorem FirstHit.le (hdesc : Descending policies.get? IpsecPolicy.prio ids) {i j : ℕ} {p q : IpsecPolicy}
    (h : FirstHit policies hit ids (some (i, p))) (hj : j ∈ ids) (hq : policies.get? j = some q)
    (hhit : hit q = true) : q.prio ≤ p.prio := by
  obtain ⟨l₁, l₂, rfl, hp, -, hbefore⟩ := h
  refine hdesc.first_le hp hj hq fun hmem => ?_
  rw [hbefore j hmem q hq] at hhit
  cases hhit

/-- A live policy that selects the packet. -/
def Hit (policies : Pool IpsecPolicy) (hit : IpsecPolicy → Bool) (live : Finset ℕ)
    (c : ℕ × IpsecPolicy) : Prop :=
  c.1 ∈ live ∧ policies.get? c.1 = some c.2 ∧ hit c.2 = true

/-- The linear search over the live policies in descending order. -/
theorem FirstHit.topOf {live : Finset ℕ} {r : Option (ℕ × IpsecPolicy)} (h : FirstHit policies hit ids r)
    (hdesc : Descending policies.get? IpsecPolicy.prio ids) (hmem : ∀ i, i ∈ ids ↔ i ∈ live) :
    TopOf foundPriority (Hit policies hit live) r := by
  match r with
  | none =>
    rintro ⟨i, p⟩ ⟨hi, hp, hhit⟩
    rw [h i ((hmem i).mpr hi) p hp] at hhit
    cases hhit
  | some (i, p) =>
    refine ⟨?_, ?_⟩
    · obtain ⟨l₁, l₂, hsplit, hp, hhit, -⟩ := h
      exact ⟨(hmem i).mp (by rw [hsplit]; simp), hp, hhit⟩
    · rintro ⟨j, q⟩ ⟨hj, hq, hqhit⟩
      exact h.le hdesc ((hmem j).mpr hj) hq hqhit

end

/-! ### The loop over the masks -/

/-- `last_priority` is the priority of the policy kept so far, or zero. -/
def FpBest.Consistent (best : FpBest) : Prop :=
  best.lastPriority = (best.found.map foundPriority).getD 0

/-- The candidates seen so far, and one more. -/
theorem FpBest.offer_bestOf {best : FpBest} {cand : ℕ × IpsecPolicy → Prop} (hc : best.Consistent)
    (h : BestOf foundPriority cand best.found) (c : ℕ × IpsecPolicy) :
    (best.offer c).Consistent ∧
      BestOf foundPriority (fun c' => cand c' ∨ c' = c) (best.offer c).found := by
  unfold FpBest.offer
  unfold FpBest.Consistent at hc
  split
  · next hlt =>
    refine ⟨rfl, .inr rfl, ?_, ?_⟩
    · intro hzero
      rw [show c.2.priority = 0 from hzero] at hlt
      exact absurd hlt (by simp)
    · rintro c' (hc' | rfl)
      · refine BitVec.le_trans ?_ (BitVec.le_of_lt hlt)
        rw [hc]
        cases hfound : best.found with
        | none =>
          rw [hfound] at h
          rw [h c' hc']
          exact BitVec.le_refl _
        | some b =>
          rw [hfound] at h
          exact h.2.2 c' hc'
      · exact BitVec.le_refl _
  · next hnot =>
    refine ⟨hc, ?_⟩
    have hle : c.2.priority ≤ best.lastPriority := BitVec.not_lt.mp hnot
    cases hfound : best.found with
    | none =>
      rw [hfound] at h hc
      rintro c' (hc' | rfl)
      · exact h c' hc'
      · rw [hc] at hle
        exact BitVec.le_zero_iff.mp hle
    | some b =>
      rw [hfound] at h hc
      refine ⟨.inl h.1, h.2.1, ?_⟩
      rintro c' (hc' | rfl)
      · exact h.2.2 c' hc'
      · rw [hc] at hle
        exact hle

section
variable {isIpv6 : Bool} {skip : IpsecFp5tuple → Bool} {hit : IpsecPolicy → Bool} {im : IpsecMain}
variable {table : Bihash} {m : IpsecFp5tuple} {mti : IpsecFpMaskId} {c c' : ℕ × IpsecPolicy}
    {mtis : List IpsecFpMaskId}

/-- The policy that the lookup with one mask finds. -/
def MaskCandidate (isIpv6 : Bool) (skip : IpsecFp5tuple → Bool) (hit : IpsecPolicy → Bool) (im : IpsecMain)
    (table : Bihash) (m : IpsecFp5tuple) (mti : IpsecFpMaskId) (c : ℕ × IpsecPolicy) : Prop :=
  ∃ mte ids, im.fpMaskTypes.get? mti.maskTypeIdx = some mte ∧ skip mte.mask = false ∧
    table (fillHashPolicyKv isIpv6 m mte.mask) = some ids ∧ linearSearch im.policies hit ids = .ok (some c)

/-- The buckets are not empty and hold indices of the pool. -/
def SoundTable (im : IpsecMain) (table : Bihash) : Prop :=
  ∀ k ids, table k = some ids → ids ≠ [] ∧ ∀ i ∈ ids, (im.policies.get? i).isSome

/-- With one mask a bucket is searched, or nothing: a bucket with a single policy is read without the inner
    loop, to the same effect. -/
theorem lookupMask_bucket (htable : SoundTable im table) {mte : IpsecFpMaskTypeEntry}
    (hmte : im.fpMaskTypes.get? mti.maskTypeIdx = some mte) (hskip : skip mte.mask = false)
    {ids : List ℕ} (hids : table (fillHashPolicyKv isIpv6 m mte.mask) = some ids) (best : FpBest) :
    lookupMask isIpv6 skip hit im table m best mti =
      linearSearch im.policies hit ids >>= fun r => .ok (r.elim best best.offer) := by
  obtain ⟨hne, hlive⟩ := htable _ ids hids
  simp only [lookupMask, hmte, deref_some, bind_ok, hskip, Bool.false_eq_true, if_false, hids]
  split
  · refine congrArg (linearSearch im.policies hit ids >>= ·) (funext fun r => ?_)
    cases r <;> rfl
  · next hlen =>
    obtain ⟨i, rfl⟩ : ∃ i, ids = [i] := by
      match ids, hne, hlen with
      | [i], _, _ => exact ⟨i, rfl⟩
      | i :: j :: l, _, hlen => simp at hlen
    obtain ⟨p, hp⟩ := Option.isSome_iff_exists.mp (hlive i mem_cons_self)
    rw [linearSearch, hp, deref_some, bind_ok, head?_cons, deref_some, bind_ok, hp, deref_some, bind_ok]
    split <;> rfl

/-- One mask has one candidate at most, which is offered. -/
theorem lookupMask_eq (htable : SoundTable im table)
    (hmti : (im.fpMaskTypes.get? mti.maskTypeIdx).isSome) (best : FpBest) :
    (lookupMask isIpv6 skip hit im table m best mti = .ok best ∧
        ∀ c, ¬ MaskCandidate isIpv6 skip hit im table m mti c) ∨
      ∃ c, lookupMask isIpv6 skip hit im table m best mti = .ok (best.offer c) ∧
        ∀ c', MaskCandidate isIpv6 skip hit im table m mti c' ↔ c' = c := by
  obtain ⟨mte, hmte⟩ := Option.isSome_iff_exists.mp hmti
  have hcand : ∀ c, MaskCandidate isIpv6 skip hit im table m mti c ↔ skip mte.mask = false ∧
      ∃ ids, table (fillHashPolicyKv isIpv6 m mte.mask) = some ids ∧
        linearSearch im.policies hit ids = .ok (some c) := by
    intro c
    constructor
    · rintro ⟨mte', ids, hmte', hskip, hids, hr⟩
      rw [hmte] at hmte'
      cases hmte'
      exact ⟨hskip, ids, hids, hr⟩
    · rintro ⟨hskip, ids, hids, hr⟩
      exact ⟨mte, ids, hmte, hskip, hids, hr⟩
  cases hskip : skip mte.mask with
  | true =>
    refine .inl ⟨?_, fun c => by rw [hcand, hskip]; simp⟩
    rw [lookupMask, hmte, deref_some, bind_ok, if_pos hskip]
    rfl
  | false =>
    cases hids : table (fillHashPolicyKv isIpv6 m mte.mask) with
    | none =>
      refine .inl ⟨?_, fun c => by rw [hcand, hids]; simp⟩
      simp only [lookupMask, hmte, deref_some, bind_ok, hskip, Bool.false_eq_true, if_false, hids]
      rfl
    | some ids =>
      obtain ⟨r, hr, -⟩ : ∃ r, linearSearch im.policies hit ids = .ok r ∧ _ :=
        linearSearch_spec (htable _ ids hids).2
      have hstep : lookupMask isIpv6 skip hit im table m best mti = _ :=
        lookupMask_bucket htable hmte hskip hids best
      rw [hr, bind_ok] at hstep
      cases r with
      | none => exact .inl ⟨hstep, fun c => by rw [hcand, hids]; simp [hr]⟩
      | some c => exact .inr ⟨c, hstep, fun c' => by rw [hcand, hids]; simp [hr, hskip, eq_comm]⟩

/-- The mask is the first one whose candidate has the priority of `c`, and `c` is that candidate. -/
def FirstReached (isIpv6 : Bool) (skip : IpsecFp5tuple → Bool) (hit : IpsecPolicy → Bool) (im : IpsecMain)
    (table : Bihash) (m : IpsecFp5tuple) (mtis : List IpsecFpMaskId) (c : ℕ × IpsecPolicy) : Prop :=
  ∃ l₁ mti l₂, mtis = l₁ ++ mti :: l₂ ∧ MaskCandidate isIpv6 skip hit im table m mti c ∧
    ∀ mti' ∈ l₁, ∀ c', MaskCandidate isIpv6 skip hit im table m mti' c' → foundPriority c' ≠ foundPriority c

/-- The best of the candidates of all masks. -/
theorem lookupMasks_bestOf (htable : SoundTable im table)
    (hmtes : ∀ mti ∈ mtis, (im.fpMaskTypes.get? mti.maskTypeIdx).isSome) {best : FpBest}
    {cand : ℕ × IpsecPolicy → Prop} (hc : best.Consistent)
    (h : BestOf foundPriority cand best.found) :
    ∃ best', mtis.foldlM (lookupMask isIpv6 skip hit im table m) best = .ok best' ∧
      BestOf foundPriority
        (fun c => cand c ∨ ∃ mti ∈ mtis, MaskCandidate isIpv6 skip hit im table m mti c) best'.found := by
  induction mtis generalizing best cand with
  | nil => exact ⟨best, rfl, h.congr fun c => by simp⟩
  | cons mti mtis ih =>
    obtain ⟨hmti, hrest⟩ := forall_mem_cons.mp hmtes
    rcases lookupMask_eq htable hmti best with ⟨hstep, hnone⟩ | ⟨c, hstep, hone⟩
    · obtain ⟨best', hfold, hbest⟩ := ih hrest hc h
      refine ⟨best', by rw [foldlM_cons, hstep, bind_ok, hfold], hbest.congr fun c => ?_⟩
      simp [hnone c]
    · obtain ⟨hc', h'⟩ := best.offer_bestOf hc h c
      obtain ⟨best', hfold, hbest⟩ := ih hrest hc' h'
      refine ⟨best', by rw [foldlM_cons, hstep, bind_ok, hfold], hbest.congr fun c' => ?_⟩
      simp [hone c', or_assoc]

theorem FirstReached.cons (h : FirstReached isIpv6 skip hit im table m mtis c)
    (hhead : ∀ c', MaskCandidate isIpv6 skip hit im table m mti c' → foundPriority c' ≠ foundPriority c) :
    FirstReached isIpv6 skip hit im table m (mti :: mtis) c := by
  obtain ⟨l₁, e, l₂, hsplit, hc, hbefore⟩ := h
  exact ⟨mti :: l₁, e, l₂, by rw [hsplit]; rfl, hc, forall_mem_cons.mpr ⟨hhead, hbefore⟩⟩

/-- Of candidates with the same priority the first one is kept. -/
theorem lookupMasks_first (htable : SoundTable im table)
    (hmtes : ∀ mti ∈ mtis, (im.fpMaskTypes.get? mti.maskTypeIdx).isSome) {best best' : FpBest}
    (hfold : mtis.foldlM (lookupMask isIpv6 skip hit im table m) best = .ok best')
    (hfound : best'.found = some c) :
    best' = best ∨
      best.lastPriority < foundPriority c ∧ FirstReached isIpv6 skip hit im table m mtis c := by
  induction mtis generalizing best with
  | nil =>
    cases hfold
    exact .inl rfl
  | cons mti mtis ih =>
    obtain ⟨hmti, hrest⟩ := forall_mem_cons.mp hmtes
    rw [foldlM_cons] at hfold
    rcases lookupMask_eq htable hmti best with ⟨hstep, hnone⟩ | ⟨c₁, hstep, hone⟩
    · rw [hstep, bind_ok] at hfold
      refine (ih hrest hfold).imp id fun ⟨hlt, hfirst⟩ => ⟨hlt, hfirst.cons ?_⟩
      intro c' hc'
      exact absurd hc' (hnone c')
    · rw [hstep, bind_ok] at hfold
      by_cases hwin : best.lastPriority < c₁.2.priority
      · rw [FpBest.offer, if_pos hwin] at hfold
        refine .inr ?_
        rcases ih hrest hfold with rfl | ⟨hlt, hfirst⟩
        · cases hfound
          exact ⟨hwin, [], mti, mtis, rfl, (hone c).mpr rfl, by simp⟩
        · refine ⟨BitVec.lt_trans hwin hlt, hfirst.cons fun c' hc' => ?_⟩
          rw [(hone c').mp hc']
          exact (BitVec.ne_of_lt hlt)
      · rw [FpBest.offer, if_neg hwin] at hfold
        refine (ih hrest hfold).imp id fun ⟨hlt, hfirst⟩ => ⟨hlt, hfirst.cons ?_⟩
        intro c' hc' heq
        rw [(hone c').mp hc'] at heq
        rw [show c₁.2.priority = foundPriority c from heq] at hwin
        exact hwin hlt

/-- A mask leads to one candidate. -/
theorem MaskCandidate.unique (h : MaskCandidate isIpv6 skip hit im table m mti c)
    (h' : MaskCandidate isIpv6 skip hit im table m mti c') :
    c = c' := by
  obtain ⟨mte, ids, hmte, -, hids, hr⟩ := h
  obtain ⟨mte', ids', hmte', -, hids', hr'⟩ := h'
  rw [hmte] at hmte'
  cases hmte'
  rw [hids] at hids'
  cases hids'
  rw [hr] at hr'
  exact Option.some.inj (Except.ok.inj hr')

theorem FirstReached.unique (h : FirstReached isIpv6 skip hit im table m mtis c)
    (h' : FirstReached isIpv6 skip hit im table m mtis c')
    (heq : foundPriority c = foundPriority c') : c = c' := by
  obtain ⟨l₁, e, l₂, hsplit, hc, hbefore⟩ := h
  obtain ⟨l₁', e', l₂', hsplit', hc', hbefore'⟩ := h'
  rw [hsplit] at hsplit'
  -- neither of the two masks can stand in front of the other
  rcases append_eq_append_iff.mp hsplit' with ⟨l, rfl, htail⟩ | ⟨l, rfl, htail⟩
  · match l, htail with
    | [], htail =>
      cases htail
      exact hc.unique hc'
    | _ :: l, htail =>
      cases htail
      exact absurd heq (hbefore' e (by simp) c hc)
  · match l, htail with
    | [], htail =>
      cases htail
      exact hc.unique hc'
    | _ :: l, htail =>
      cases htail
      exact absurd heq.symm (hbefore e' (by simp) c' hc')

end

/-! ### The fast path finds leaders -/

section
variable {sas : SaTable} {s : SpdHistory} {held : Finset ℕ} {k h : ℕ} {spd : IpsecSpd} {t : PolicyType}
variable {skip : IpsecFp5tuple → Bool} {hit : IpsecPolicy → Bool} {m : IpsecFp5tuple}

/-- The key is looked up: a live policy of the type has a mask that leads to it. -/
def Visited (sas : SaTable) (policies : Pool IpsecPolicy) (live : Finset ℕ) (isIpv6 : Bool)
    (skip : IpsecFp5tuple → Bool) (m key : IpsecFp5tuple) : Prop :=
  ∃ i ∈ live, ∃ p, policies.get? i = some p ∧ skip (ipsecFpGetPolicyMask sas p) = false ∧
    fillHashPolicyKv isIpv6 m (ipsecFpGetPolicyMask sas p) = key

/-- A policy that the fast path can find: one that passes the test, in a bucket that is looked up. -/
def FastHit (sas : SaTable) (s : SpdHistory) (spdId : BitVec 32) (t : PolicyType) (skip : IpsecFp5tuple → Bool)
    (hit : IpsecPolicy → Bool) (m : IpsecFp5tuple) (c : ℕ × IpsecPolicy) : Prop :=
  Filed (s.live spdId) t.isIpv6 t.isInbound c.1 ∧ s.im.policies.get? c.1 = some c.2 ∧ hit c.2 = true ∧
    Visited sas s.im.policies (s.live spdId t) t.isIpv6 skip m (policyKey sas c.2)

/-- The key under which a policy that was found is filed. -/
def foundKey (sas : SaTable) (c : ℕ × IpsecPolicy) : IpsecFp5tuple := policyKey sas c.2

section
variable (hinv : SpdInv sas s held) (hk : s.im.spds.get? k = some spd) (hfast : (spd.tableOf t).isSome)
include hinv hk hfast

/-- The masks listed for a type are those of its live policies. -/
theorem SpdInv.mem_maskIds (hmti : mti ∈ spd.fpSpd.fpMaskIds t) :
    ∃ i ∈ s.live spd.id t, ∃ p mte, s.im.policies.get? i = some p ∧
      s.im.fpMaskTypes.get? mti.maskTypeIdx = some mte ∧ mte.mask = ipsecFpGetPolicyMask sas p := by
  obtain ⟨hcount, hpos⟩ := ((hinv.rep k spd hk).maskIds t hfast).count mti hmti
  rw [hcount] at hpos
  obtain ⟨i, hi, hmask⟩ := uses_pos_iff.mp hpos
  obtain ⟨p, mte, hp, hmte, heq⟩ := hinv.masks.mask i ((hinv.fast k spd hk t i hi).mpr hfast)
  rw [maskOf_eq hp] at hmask
  exact ⟨i, hi, p, mte, hp, by rw [← hmask]; exact hmte, heq⟩

theorem SpdInv.maskIds_of_live {i : ℕ} {p : IpsecPolicy} (hi : i ∈ s.live spd.id t)
    (hp : s.im.policies.get? i = some p) :
    ∃ mti ∈ spd.fpSpd.fpMaskIds t, ∃ mte, s.im.fpMaskTypes.get? mti.maskTypeIdx = some mte ∧
      mte.mask = ipsecFpGetPolicyMask sas p := by
  obtain ⟨mti, hmti, heq⟩ := ((hinv.rep k spd hk).maskIds t hfast).listed i hi
  obtain ⟨q, mte, hq, hmte, hmask⟩ := hinv.masks.mask i ((hinv.fast k spd hk t i hi).mpr hfast)
  rw [hp] at hq
  cases hq
  rw [maskOf_eq hp] at heq
  exact ⟨mti, hmti, mte, by rw [heq]; exact hmte, hmask⟩

end

/-- The candidates of the masks lead the buckets that are looked up. -/
theorem SpdInv.leads (hinv : SpdInv sas s held) (hk : s.im.spds.get? k = some spd)
    (hfast : (spd.tableOf t).isSome) {table : Bihash}
    (hbuckets : Bucketed s.im.policies.get? (policyKey sas) IpsecPolicy.prio table
      (Filed (s.live spd.id) t.isIpv6 t.isInbound)) :
    Leads foundPriority (foundKey sas) (FastHit sas s spd.id t skip hit m) fun c =>
      ∃ mti ∈ spd.fpSpd.fpMaskIds t, MaskCandidate t.isIpv6 skip hit s.im table m mti c := by
  have hlive : ∀ key ids, table key = some ids → ∀ i ∈ ids, (s.im.policies.get? i).isSome := by
    intro key ids hids i hi
    obtain ⟨-, p, hp, -⟩ := hbuckets.sound key ids i hids hi
    rw [hp]; rfl
  constructor
  · rintro ⟨i, p⟩ ⟨mti, hmti, mte, ids, hmte, hskip, hids, hr⟩
    obtain ⟨j, hj, q, mte', hq, hmte', hmask⟩ := hinv.mem_maskIds hk hfast hmti
    rw [hmte] at hmte'
    cases hmte'
    obtain ⟨r, hr', hfirst⟩ := linearSearch_spec (hlive _ ids hids)
    rw [hr] at hr'
    cases hr'
    have hmem : i ∈ ids := by
      obtain ⟨l₁, l₂, hsplit, -⟩ := hfirst
      rw [hsplit]
      simp
    obtain ⟨hfiled, p', hp', hkey⟩ := hbuckets.sound _ ids i hids hmem
    have hp : s.im.policies.get? i = some p ∧ hit p = true := by
      obtain ⟨l₁, l₂, -, hp, hhit, -⟩ := hfirst
      exact ⟨hp, hhit⟩
    rw [hp.1] at hp'
    cases hp'
    refine ⟨⟨hfiled, hp.1, hp.2, j, hj, q, hq, by rw [← hmask]; exact hskip, ?_⟩, ?_⟩
    · rw [← hmask]
      exact hkey.symm
    · rintro ⟨i', p'⟩ ⟨hfiled', hp', hhit', -⟩ hsame
      obtain ⟨p'', ids', hp'', hids', hmem'⟩ := hbuckets.complete i' hfiled'
      rw [hp'] at hp''
      cases hp''
      rw [show policyKey sas p' = policyKey sas p from hsame, hkey, hids] at hids'
      cases hids'
      exact hfirst.le (hbuckets.bucket _ ids hids).2.2 hmem' hp' hhit'
  · rintro ⟨i, p⟩ ⟨hfiled, hp, hhit, j, hj, q, hq, hskip, hkey⟩
    obtain ⟨p', ids, hp', hids, hmem⟩ := hbuckets.complete i hfiled
    rw [hp] at hp'
    cases hp'
    obtain ⟨mti, hmti, mte, hmte, hmask⟩ := hinv.maskIds_of_live hk hfast hj hq
    rw [← hmask] at hskip hkey
    obtain ⟨r, hr, hfirst⟩ : ∃ r, linearSearch s.im.policies hit ids = .ok r ∧ _ :=
      linearSearch_spec (hlive _ ids hids)
    match r with
    | none =>
      rw [hfirst i hmem p hp] at hhit
      cases hhit
    | some (i', p') =>
      refine ⟨(i', p'), ⟨mti, hmti, mte, ids, hmte, hskip, by rw [hkey]; exact hids, hr⟩, ?_⟩
      obtain ⟨l₁, l₂, hsplit, hp', -, -⟩ := hfirst
      obtain ⟨-, p'', hp'', hkey'⟩ := hbuckets.sound _ ids i' hids (by rw [hsplit]; simp)
      rw [hp'] at hp''
      cases hp''
      exact hkey'

/-- The fast path of the SPD reaches the policy before any other of the same priority. -/
def ReachedFirst (im : IpsecMain) (spd : IpsecSpd) (t : PolicyType) (skip : IpsecFp5tuple → Bool)
    (hit : IpsecPolicy → Bool) (m : IpsecFp5tuple) (c : ℕ × IpsecPolicy) : Prop :=
  ∃ h table, spd.tableOf t = some h ∧ (im.lookupHashes t.isIpv6).get? h = some table ∧
    FirstReached t.isIpv6 skip hit im table m (spd.fpSpd.fpMaskIds t) c

theorem ReachedFirst.unique {im : IpsecMain} (hr : ReachedFirst im spd t skip hit m c)
    (hr' : ReachedFirst im spd t skip hit m c') (heq : foundPriority c = foundPriority c') : c = c' := by
  obtain ⟨h, table, hidx, htable, hfirst⟩ := hr
  obtain ⟨h', table', hidx', htable', hfirst'⟩ := hr'
  rw [hidx] at hidx'
  cases hidx'
  rw [htable] at htable'
  cases htable'
  exact hfirst.unique hfirst' heq

/-- What the fast path returns for one packet. -/
theorem SpdInv.fastSearch (hinv : SpdInv sas s held) (hk : s.im.spds.get? k = some spd)
    (hfast : (spd.tableOf t).isSome) (skip : IpsecFp5tuple → Bool) (rule : IpsecPolicy → IpsecFp5tuple → Bool)
    (m : IpsecFp5tuple) :
    ∃ r, fpPolicyMatchN t.isIpv6 t.isInbound skip rule (spd.fpSpd.fpMaskIds t) s.im spd.fpSpd [m] = .ok [r] ∧
      (∃ cand, BestOf foundPriority cand r ∧
        Leads foundPriority (foundKey sas) (FastHit sas s spd.id t skip (rule · m) m) cand ∧
        ∀ c, ReachedFirst s.im spd t skip (rule · m) m c → cand c) ∧
      ∀ c, r = some c → ReachedFirst s.im spd t skip (rule · m) m c := by
  obtain ⟨h, hidx⟩ := Option.isSome_iff_exists.mp hfast
  obtain ⟨table, htable, hbuckets⟩ := (hinv.rep k spd hk).table _ _ h hidx
  have hsound : SoundTable s.im table := by
    intro key ids hids
    refine ⟨(hbuckets.bucket key ids hids).1, fun i hi => ?_⟩
    obtain ⟨-, p, hp, -⟩ := hbuckets.sound key ids i hids hi
    rw [hp]; rfl
  have hmtes : ∀ mti ∈ spd.fpSpd.fpMaskIds t, (s.im.fpMaskTypes.get? mti.maskTypeIdx).isSome := by
    intro mti hmti
    obtain ⟨-, -, -, mte, -, hmte, -⟩ := hinv.mem_maskIds hk hfast hmti
    rw [hmte]; rfl
  have hstart : BestOf foundPriority (fun _ => False) ({} : FpBest).found := fun _ hc => hc.elim
  have hcons : ({} : FpBest).Consistent := rfl
  obtain ⟨best, hfold, hbest⟩ := lookupMasks_bestOf hsound hmtes hcons hstart
  refine ⟨best.found, ?_, ⟨_, hbest.congr fun c => by rw [false_or], hinv.leads hk hfast hbuckets, ?_⟩, ?_⟩
  · rw [IpsecSpd.tableOf] at hidx
    simp only [fpPolicyMatchN, hidx, deref_some, bind_ok, htable, mapM_cons, mapM_nil, hfold]
    rfl
  · rintro c ⟨h', table', hidx', htable', l₁, mti, l₂, hsplit, hc, -⟩
    rw [hidx] at hidx'
    cases hidx'
    rw [htable] at htable'
    cases htable'
    exact ⟨mti, by rw [hsplit]; simp, hc⟩
  · intro c hc
    rcases lookupMasks_first hsound hmtes hfold hc with rfl | ⟨-, hfirst⟩
    · cases hc
    · exact ⟨h, table, hidx, htable, hfirst⟩

end

end Vpp.Ipsec
