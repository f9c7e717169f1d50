import Vpp.Fib.Ip6Fib

/-! What the lookups in the IPv6 FIB find.

    A table stands for a set of prefixes for each VRF (`TableInv`). Of a length, the reference count is at least the
    number of prefixes present, over all VRFs:

        present prefixes of length l   ≤   refcounts[l]   ≠ 0   ⟺   bit 128 - l is set   ⟺   l is searched

    It can be more, because the insertion of a prefix that is present counts too, so a length may be searched in vain.
    This is harmless until a count overflows (`lookup_misses_after_wrap`). -/

namespace Vpp.Fib
open Vpp.Schemes Vpp.Vppinfra List Function FibHistory
open Function (update)

/-! ### Keys -/

theorem getLsbD_fibMasks (len : ℕ) {i : ℕ} (hi : i < 128) : (fibMasks len).getLsbD i = decide
    (128 - len ≤ i) := by
  rw [fibMasks, BitVec.getLsbD_shiftLeft, BitVec.getLsbD_allOnes]
  by_cases hle : 128 - len ≤ i
  · simp [hi, hle, not_lt.mpr hle, show i - (128 - len) < 128 by omega]
  · simp only [not_le.mp hle, hle, decide_true, decide_false, Bool.not_true, Bool.and_false, Bool.false_and]

theorem toNat_and_fibMasks (addr : BitVec 128) (len : ℕ) :
    (addr &&& fibMasks len).toNat = firstBits addr len * 2 ^ (128 - len) := by
  have hshift : addr &&& fibMasks len = (addr >>> (128 - len)) <<< (128 - len) := by
    refine BitVec.eq_of_getLsbD_eq fun i hi => ?_
    rw [BitVec.getLsbD_and, getLsbD_fibMasks len hi, BitVec.getLsbD_shiftLeft, BitVec.getLsbD_ushiftRight]
    by_cases hlt : i < 128 - len
    · simp [hlt, not_le.mpr hlt]
    · simp [hlt, hi, not_lt.mp hlt, show 128 - len + (i - (128 - len)) = i by omega]
  have hle : addr.toNat / 2 ^ (128 - len) * 2 ^ (128 - len) ≤ addr.toNat := Nat.div_mul_le_self _ _
  rw [hshift, BitVec.toNat_shiftLeft, BitVec.toNat_ushiftRight, Nat.shiftLeft_eq, Nat.shiftRight_eq_div_pow, firstBits]
  exact Nat.mod_eq_of_lt (lt_of_le_of_lt hle addr.isLt)

theorem and_fibMasks_inj (a b : BitVec 128) (len : ℕ) :
    a &&& fibMasks len = b &&& fibMasks len ↔ firstBits a len = firstBits b len := by
  rw [← BitVec.toNat_inj, toNat_and_fibMasks, toNat_and_fibMasks, Nat.mul_left_inj (Nat.two_pow_pos _).ne']

/-- A mask does not undo a shorter one. -/
theorem and_fibMasks_and (addr : BitVec 128) {l m : ℕ} (hlm : l ≤ m) :
    (addr &&& fibMasks m) &&& fibMasks l = addr &&& fibMasks l := by
  refine BitVec.eq_of_getLsbD_eq fun i hi => ?_
  simp only [BitVec.getLsbD_and, getLsbD_fibMasks _ hi, Bool.and_assoc, ← Bool.decide_and]
  congr 2
  exact propext ⟨And.right, fun hle => ⟨by omega, hle⟩⟩

theorem toNat_fibKey (fibIndex : BitVec 32) {len : ℕ} (hlen : len ≤ 128) :
    (fibKey fibIndex len).toNat = fibIndex.toNat * 2 ^ 32 + len := by
  have hwide : (fibIndex.setWidth 64).toNat = fibIndex.toNat := by
    rw [BitVec.toNat_setWidth]
    exact Nat.mod_eq_of_lt (by omega)
  rw [fibKey, BitVec.toNat_or, BitVec.toNat_shiftLeft, BitVec.toNat_ofNat, hwide, Nat.shiftLeft_eq,
    Nat.mod_eq_of_lt (by omega : fibIndex.toNat * 2 ^ 32 < 2 ^ 64), Nat.mod_eq_of_lt (by omega : len < 2 ^ 64),
    mul_comm, ← Nat.two_pow_add_eq_or_of_lt (by omega)]

theorem fibKey_inj {f g : BitVec 32} {l m : ℕ} (hl : l ≤ 128) (hm : m ≤ 128) :
    fibKey f l = fibKey g m ↔ f = g ∧ l = m := by
  rw [← BitVec.toNat_inj, toNat_fibKey f hl, toNat_fibKey g hm, ← BitVec.toNat_inj]
  omega

/-! ### The tables -/

/-- The table holds the prefixes of `R`. -/
structure TableInv (table : Ip6FibTableInstance) (R : BitVec 32 → Routes (BitVec 32)) : Prop where
  hash : ∀ fibIndex addr len, len ≤ 128 →
    table.ip6Hash (addr &&& fibMasks len, fibKey fibIndex len) = R fibIndex len (firstBits addr len)
  count : ∀ len : Fin 129, ∃ present :
    Finset (BitVec 32 × ℕ), (∀ p, p ∈ present ↔ R p.1 len p.2 ≠ none) ∧
    present.card ≤ (table.dstAddressLengthRefcounts len).toNat
  bit : ∀ len : Fin 129, clibBitmapGet table.nonEmptyDstAddressLengthBitmap (128 - len) = true ↔
    table.dstAddressLengthRefcounts len ≠ 0
  bits : ∀ i, clibBitmapGet table.nonEmptyDstAddressLengthBitmap i = true → i ≤ 128
  order : table.prefixLengthsInSearchOrder =
    (clibBitmapForeach table.nonEmptyDstAddressLengthBitmap).map (128 - ·)

/-- The routes after one prefix of one VRF has been given another value, or none. -/
def setRoute (R : BitVec 32 → Routes (BitVec 32)) (fibIndex : BitVec 32) (addr : BitVec 128) (len : ℕ)
    (value : Option (BitVec 32)) : BitVec 32 → Routes (BitVec 32) :=
  update R fibIndex ((R fibIndex).set len (firstBits addr len) value)

theorem setRoute_apply (R : BitVec 32 → Routes (BitVec 32)) (fibIndex : BitVec 32) (addr : BitVec 128) (len : ℕ)
    (value : Option (BitVec 32)) (f : BitVec 32) (l v : ℕ) :
    setRoute R fibIndex addr len value f l v =
      if f = fibIndex ∧ l = len ∧ v = firstBits addr len then value else R f l v := by
  rw [setRoute, update_apply]
  by_cases hf : f = fibIndex
  · simp [hf, Routes.set]
  · simp [hf]

section
variable {table : Ip6FibTableInstance} {R : BitVec 32 → Routes (BitVec 32)} {fibIndex : BitVec 32}
  {addr : BitVec 128} {len : Fin 129} {value : Option (BitVec 32)}

section

variable (h : TableInv table R)
include h

/-- One entry of the hash table changes, as the routes do. -/
theorem TableInv.hash_update (f : BitVec 32) (a : BitVec 128) (l : ℕ) (hl : l ≤ 128) :
    update table.ip6Hash (addr &&& fibMasks len, fibKey fibIndex len) value (a &&& fibMasks l, fibKey f l) =
      setRoute R fibIndex addr len value f l (firstBits a l) := by
  rw [update_apply, setRoute_apply, h.hash f a l hl]
  congr 1
  rw [Prod.mk.injEq, fibKey_inj hl (Nat.le_of_lt_succ len.isLt), eq_iff_iff]
  constructor
  · rintro ⟨hmask, rfl, rfl⟩
    exact ⟨rfl, rfl, (and_fibMasks_inj a addr _).mp hmask⟩
  · rintro ⟨rfl, rfl, hfirst⟩
    exact ⟨(and_fibMasks_inj a addr _).mpr hfirst, rfl, rfl⟩

/-- Where the count of one length changes, and its bit with it, the bits keep telling which counts are zero. -/
theorem TableInv.bit_update (len : Fin 129) (refcount : BitVec 32) (l : Fin 129) :
    clibBitmapGet (clibBitmapSet table.nonEmptyDstAddressLengthBitmap (128 - len) (decide (refcount ≠ 0)))
      (128 - l) = true ↔ update table.dstAddressLengthRefcounts len refcount l ≠ 0 := by
  rw [clibBitmapGet_bitmapSet, update_apply]
  by_cases heq : l = len
  · simp [heq]
  · rw [if_neg (fun hc => heq (Fin.ext (by omega))), if_neg heq]
    exact h.bit l

/-- Where a count changes but is zero neither before nor after, the bits stay. -/
theorem TableInv.bit_keep {refcount : BitVec 32} (hbefore : table.dstAddressLengthRefcounts len ≠ 0)
    (hafter : refcount ≠ 0) (l : Fin 129) :
    clibBitmapGet table.nonEmptyDstAddressLengthBitmap (128 - l) = true ↔
      update table.dstAddressLengthRefcounts len refcount l ≠ 0 := by
  rw [h.bit l]
  by_cases hl : l = len
  · rw [hl, update_self]
    exact iff_of_true hbefore hafter
  · rw [update_of_ne hl]

theorem TableInv.bits_update (v : Bool) (i : ℕ)
    (hi : clibBitmapGet (clibBitmapSet table.nonEmptyDstAddressLengthBitmap (128 - len) v) i = true) : i ≤ 128 := by
  rw [clibBitmapGet_bitmapSet] at hi
  split at hi
  · omega
  · exact h.bits i hi

/-- Of the other lengths the same prefixes are present. -/
theorem TableInv.count_update {refcount : BitVec 32} {present : Finset (BitVec 32 × ℕ)}
    (hmem : ∀ p, p ∈ present ↔ (if p = (fibIndex, firstBits addr len) then value else R p.1 len p.2) ≠ none)
    (hcard : present.card ≤ refcount.toNat) (l : Fin 129) : ∃ present : Finset (BitVec 32 × ℕ),
      (∀ p, p ∈ present ↔ setRoute R fibIndex addr len value p.1 l p.2 ≠ none) ∧
        present.card ≤ (update table.dstAddressLengthRefcounts len refcount l).toNat := by
  by_cases hl : l = len
  · subst hl
    refine ⟨present, fun p => ?_, by rwa [update_self]⟩
    rw [hmem p, setRoute_apply]
    simp [Prod.ext_iff]
  · obtain ⟨present, hmem, hcard⟩ := h.count l
    refine ⟨present, fun p => ?_, by rwa [update_of_ne hl]⟩
    rw [setRoute_apply, if_neg fun hc => hl (Fin.ext hc.2.1)]
    exact hmem p

theorem TableInv.insert (v : BitVec 32)
    (hfits : (table.dstAddressLengthRefcounts len).toNat < 2 ^ 31 - 1) :
    TableInv (tableInsert table fibIndex addr len v) (setRoute R fibIndex addr len (some v)) := by
  have hone : (1 : BitVec 32).toNat = 1 := rfl
  have hsucc : (table.dstAddressLengthRefcounts len + 1).toNat = (table.dstAddressLengthRefcounts len).toNat + 1 := by
    rw [BitVec.toNat_add, hone]
    omega
  have hpos : table.dstAddressLengthRefcounts len + 1 ≠ 0 := by
    intro hzero
    rw [hzero] at hsucc
    exact absurd hsucc (by simp)
  obtain ⟨present, hmem, hcard⟩ := h.count len
  have hmem' (p : BitVec 32 × ℕ) : p ∈ Insert.insert (fibIndex, firstBits addr len) present ↔
      (if p = (fibIndex, firstBits addr len) then some v else R p.1 len p.2) ≠ none := by
    rw [Finset.mem_insert, hmem p]
    by_cases hp : p = (fibIndex, firstBits addr len) <;> simp [hp]
  have hcard' := Finset.card_insert_le (fibIndex, firstBits addr len) present
  have hcount := h.count_update hmem' (show _ ≤ (table.dstAddressLengthRefcounts len + 1).toNat by omega)
  unfold tableInsert
  dsimp only
  split
  · refine ⟨h.hash_update, hcount, ?_, h.bits_update true, rfl⟩
    have hbit := h.bit_update len (table.dstAddressLengthRefcounts len + 1)
    rwa [decide_eq_true hpos] at hbit
  · next hne => exact ⟨h.hash_update, hcount, h.bit_keep hne hpos, h.bits, h.order⟩

theorem TableInv.remove (hpresent : R fibIndex len (firstBits addr len) ≠ none) :
    TableInv (tableRemove table fibIndex addr len) (setRoute R fibIndex addr len none) := by
  obtain ⟨present, hmem, hcard⟩ := h.count len
  have hin : (fibIndex, firstBits addr len) ∈ present := (hmem _).mpr hpresent
  have hcardPos : 0 < present.card := Finset.card_pos.mpr ⟨_, hin⟩
  have hone : (1 : BitVec 32).toNat = 1 := rfl
  have hpred : (table.dstAddressLengthRefcounts len - 1).toNat = (table.dstAddressLengthRefcounts len).toNat - 1 := by
    rw [BitVec.toNat_sub, hone]
    omega
  have hmem' (p : BitVec 32 × ℕ) : p ∈ present.erase (fibIndex, firstBits addr len) ↔
      (if p = (fibIndex, firstBits addr len) then none else R p.1 len p.2) ≠ none := by
    rw [Finset.mem_erase, hmem p]
    by_cases hp : p = (fibIndex, firstBits addr len) <;> simp [hp]
  have hcard' := Finset.card_erase_of_mem hin
  have hcount := h.count_update hmem' (show _ ≤ (table.dstAddressLengthRefcounts len - 1).toNat by omega)
  have hnonzero : table.dstAddressLengthRefcounts len ≠ 0 := by
    intro hzero
    rw [hzero] at hcard
    exact hcardPos.not_ge hcard
  unfold tableRemove
  dsimp only
  split
  · next hzero =>
    refine ⟨h.hash_update, hcount, ?_, h.bits_update false, rfl⟩
    have hbit := h.bit_update len (table.dstAddressLengthRefcounts len - 1)
    rwa [decide_eq_false (not_not.mpr hzero)] at hbit
  · next hne => exact ⟨h.hash_update, hcount, h.bit_keep hnonzero hne, h.bits, h.order⟩

end

end

/-! ### The lookups -/

section
variable {table : Ip6FibTableInstance} {R : BitVec 32 → Routes (BitVec 32)}

section

variable (h : TableInv table R)
include h

theorem TableInv.desc : table.prefixLengthsInSearchOrder.Pairwise (· > ·) := by
  rw [h.order, pairwise_map]
  refine (clibBitmapForeach_pairwise _).imp_of_mem ?_
  intro i j _ hj hlt
  have := h.bits j (mem_clibBitmapForeach.mp hj)
  omega

/-- A length is searched where its count is not zero. -/
theorem TableInv.mem_order (l : ℕ) :
    l ∈ table.prefixLengthsInSearchOrder ↔ ∃ hl : l < 129, table.dstAddressLengthRefcounts ⟨l, hl⟩ ≠ 0 := by
  rw [h.order, mem_map]
  constructor
  · rintro ⟨i, hi, rfl⟩
    rw [mem_clibBitmapForeach] at hi
    have hle := h.bits i hi
    refine ⟨by omega, (h.bit _).mp ?_⟩
    rwa [show 128 - ((⟨128 - i, by omega⟩ : Fin 129) : ℕ) = i by simp only; omega]
  · rintro ⟨hl, hne⟩
    exact ⟨128 - l, mem_clibBitmapForeach.mpr ((h.bit ⟨l, hl⟩).mpr hne), by omega⟩

/-- A prefix that is present has a length that is searched. -/
theorem TableInv.mem_order_of_present {f : BitVec 32} {l v : ℕ} (hl : l ≤ 128)
    (hpresent : R f l v ≠ none) : l ∈ table.prefixLengthsInSearchOrder := by
  obtain ⟨present, hmem, hcard⟩ := h.count ⟨l, Nat.lt_succ_of_le hl⟩
  have hpos : 0 < present.card := Finset.card_pos.mpr ⟨(f, v), (hmem (f, v)).mpr hpresent⟩
  refine (h.mem_order l).mpr ⟨Nat.lt_succ_of_le hl, fun hzero => ?_⟩
  rw [hzero] at hcard
  exact not_le.mpr hpos hcard

/-- The key is masked by one length after the other, which comes to the same as masking the address each time. -/
theorem TableInv.lookupLoop_eq (fibIndex : BitVec 32) (addr key : BitVec 128) {lens : List ℕ}
    (hdesc : lens.Pairwise (· > ·)) (hle : ∀ l ∈ lens, l ≤ 128)
    (hkey : ∀ l ∈ lens, key &&& fibMasks l = addr &&& fibMasks l) :
    lookupLoop table fibIndex key lens = searchLengths (R fibIndex) 128 addr.toNat lens := by
  induction lens generalizing key with
  | nil => rfl
  | cons m lens ih =>
    have hrest := ih (key &&& fibMasks m) (List.Pairwise.of_cons hdesc) (fun l hl => hle l (mem_cons_of_mem m hl))
      fun l hl => by
        rw [and_fibMasks_and key (le_of_lt (rel_of_pairwise_cons hdesc hl))]
        exact hkey l (mem_cons_of_mem m hl)
    rewrite [lookupLoop, searchLengths, hrest, hkey m mem_cons_self,
      h.hash fibIndex addr m (hle m mem_cons_self), firstBits]
    cases R fibIndex m (addr.toNat / 2 ^ (128 - m)) with
    | some value => rfl
    | none => rfl

/-- The loop over the lengths up to a limit finds the longest match up to that limit. -/
theorem TableInv.lookup_upTo (fibIndex : BitVec 32) (addr : BitVec 128) {lens : List ℕ} {limit : ℕ}
    (hlimit : limit ≤ 128) (hdesc : lens.Pairwise (· > ·))
    (hmem : ∀ l, l ∈ lens ↔ l ∈ table.prefixLengthsInSearchOrder ∧ l ≤ limit) (d : BitVec 32) :
    (lookupLoop table fibIndex addr lens).getD d = (longest (R fibIndex) d limit (firstBits addr limit)).2 := by
  have hle : ∀ l ∈ lens, l ≤ limit := fun l hl => ((hmem l).mp hl).2
  rw [h.lookupLoop_eq fibIndex addr addr hdesc (fun l hl => (hle l hl).trans hlimit) fun l _ => rfl,
    searchLengths_of_le hlimit hle]
  refine searchLengths_eq_longest hdesc hle fun l hl hne => (hmem l).mpr ⟨?_, hl⟩
  exact h.mem_order_of_present (hl.trans hlimit) hne

end

end

/-! ### Runs -/

/-- Each table holds the prefixes of its history. -/
def FibInv (s : FibHistory) : Prop := ∀ type, TableInv (s.fib type) (s.routes type)

theorem FibInv.init : FibInv init := fun _ =>
  { hash := fun _ _ _ _ => rfl
    count := fun _ => ⟨∅, by simp [FibHistory.init], by simp⟩
    bit := fun _ => by simp [FibHistory.init, clibBitmapGet]
    bits := fun i hi => by simp [FibHistory.init, clibBitmapGet] at hi
    order := rfl }

/-- What an operation does to the table it is for. -/
theorem fibStep_eq (fib : Ip6FibTable) (op : FibOp) :
    fibStep fib op = update fib op.write.type
      (match op.write.value with
        | some v => tableInsert (fib op.write.type) op.write.fibIndex op.write.addr op.write.len v
        | none => tableRemove (fib op.write.type) op.write.fibIndex op.write.addr op.write.len) := by
  cases op <;> rfl

variable {s : FibHistory}

theorem FibInv.step {op : FibOp} (h : FibInv s) (hremove : s.RemovesPresent op)
    (hfits : s.CountFits op) : FibInv (s.step op) := by
  intro type
  simp only [FibHistory.step, fibStep_eq]
  by_cases htype : type = op.write.type
  · subst htype
    rw [update_self, update_self]
    cases hvalue : op.write.value with
    | some v => exact (h _).insert v (hfits (by rw [hvalue]; simp))
    | none => exact (h _).remove (hremove hvalue)
  · rw [update_of_ne htype, update_of_ne htype]
    exact h type

/-- The lookups find what is present: the forwarding lookup the longest match, the other one the longest match up to
    the given length, the exact one the prefix itself. -/
structure LongestPrefixMatch (s : FibHistory) : Prop where
  fwding : ∀ fibIndex addr, ip6FibTableFwdingLookup s.fib fibIndex addr =
    (longest (s.routes .fwding fibIndex) 0 128 addr.toNat).2
  lookup : ∀ fibIndex addr (len : BitVec 32), ip6FibTableLookup s.fib fibIndex addr len =
    (longest (s.routes .nonFwding fibIndex) fibNodeIndexInvalid (min len.toNat 128)
      (firstBits addr (min len.toNat 128))).2
  exactMatch : ∀ fibIndex addr (len : Fin 129), ip6FibTableLookupExactMatch s.fib fibIndex addr len =
    (s.routes .nonFwding fibIndex len (firstBits addr len)).getD fibNodeIndexInvalid

theorem FibInv.longestPrefixMatch (h : FibInv s) : LongestPrefixMatch s where
  fwding fibIndex addr := by
    have hfound := (h .fwding).lookup_upTo fibIndex addr (le_refl 128) (h .fwding).desc (fun l => ?_) 0
    · rwa [firstBits, Nat.sub_self, Nat.pow_zero, Nat.div_one] at hfound
    · rw [iff_self_and, (h .fwding).mem_order]
      rintro ⟨hl, _⟩
      exact Nat.le_of_lt_succ hl
  lookup fibIndex addr len := by
    refine (h .nonFwding).lookup_upTo fibIndex addr (min_le_right _ _)
      ((h .nonFwding).desc.sublist (dropWhile_sublist _)) (fun l => ?_) _
    rw [mem_dropWhile_of_desc (h .nonFwding).desc, Nat.le_min]
    refine and_congr_right fun hmem => ⟨fun hle => ⟨hle, ?_⟩, And.left⟩
    obtain ⟨hl, _⟩ := ((h .nonFwding).mem_order l).mp hmem
    exact Nat.le_of_lt_succ hl
  exactMatch fibIndex addr len := by
    rw [ip6FibTableLookupExactMatch, (h .nonFwding).hash fibIndex addr len (Nat.le_of_lt_succ len.isLt)]

/-- After any insertions and removals, as long as removals are of present prefixes and no count overflows, all
    lookups find what is present. -/
theorem ip6Fib_longestPrefixMatch (ops : List FibOp)
    (hok : AllSteps (fun s op => RemovesPresent s op ∧ CountFits s op) step
      init ops) :
    LongestPrefixMatch (run step init ops) :=
  (run_inv (P := FibInv) (fun _ _ h hok => h.step hok.1 hok.2) hok FibInv.init).longestPrefixMatch

/-- A default route and a longer prefix, which is stored again, next to another VRF whose prefix is removed. -/
theorem ip6Fib_longestPrefixMatch_twoVrfs :
    let p : BitVec 128 := 0x20010db8000000000000000000000000#128
    let ops : List FibOp := [.fwdingDpoUpdate 0 0 0 1, .entryInsert 0 0 0 1, .fwdingDpoUpdate 0 p 32 2,
      .entryInsert 0 p 32 2, .entryInsert 0 p 32 3, .entryInsert 1 p 48 4, .entryRemove 1 p 48]
    AllSteps (fun s op => RemovesPresent s op ∧ CountFits s op) step
      init ops ∧ LongestPrefixMatch (run step init ops) :=
  ⟨by decide +kernel, ip6Fib_longestPrefixMatch _ (by decide +kernel)⟩

/-! ### A count that overflows -/

/-- The prefix `::/64` has been stored `n` times and is the only one of its length. -/
structure Stored (n : ℕ) (s : FibHistory) : Prop where
  count : (s.fib .nonFwding).dstAddressLengthRefcounts 64 = BitVec.ofNat 32 n
  bitmap : (s.fib .nonFwding).nonEmptyDstAddressLengthBitmap = clibBitmapSet [] 64 true
  present : s.routes .nonFwding 0 64 0 = some 7

theorem Stored.again {n : ℕ} (h : Stored n s) (hpos : 0 < n) (hlt : n < 2 ^ 32) :
    Stored (n + 1) (s.step (.entryInsert 0 0 64 7)) := by
  have hne : (s.fib .nonFwding).dstAddressLengthRefcounts 64 ≠ 0 := by
    intro hzero
    have htoNat := congrArg BitVec.toNat (h.count.symm.trans hzero)
    rw [BitVec.toNat_ofNat, Nat.mod_eq_of_lt hlt] at htoNat
    exact absurd htoNat hpos.ne'
  have hfib : (s.step (.entryInsert 0 0 64 7)).fib .nonFwding = tableInsert (s.fib .nonFwding) 0 0 64 7 := rfl
  have hkeep : tableInsert (s.fib .nonFwding) 0 0 64 7 = { s.fib .nonFwding with
      ip6Hash := update (s.fib .nonFwding).ip6Hash (0 &&& fibMasks 64, fibKey 0 64) (some 7)
      dstAddressLengthRefcounts := update (s.fib .nonFwding).dstAddressLengthRefcounts 64
        ((s.fib .nonFwding).dstAddressLengthRefcounts 64 + 1) } := if_neg hne
  constructor
  · rw [hfib, hkeep, BitVec.ofNat_add, ← h.count]
    dsimp only
    rw [update_self]
    rfl
  · rw [hfib, hkeep]
    exact h.bitmap
  · rfl

theorem Stored.replicate (n : ℕ) (hn : n < 2 ^ 32) :
    Stored (n + 1) (run step init (replicate (n + 1) (.entryInsert 0 0 64 7))) := by
  induction n with
  | zero => exact ⟨by decide +kernel, by decide +kernel, by decide +kernel⟩
  | succ n ih =>
    rw [replicate_succ', run, foldl_append]
    exact (ih (by omega)).again (Nat.succ_pos n) hn

/-- A second prefix comes when the count has gone round, and takes the length with it when it leaves. -/
theorem Stored.hidden (h : Stored (2 ^ 32) s) :
    let t := (s.step (.entryInsert 0 (1#128 <<< 64) 64 8)).step (.entryRemove 0 (1#128 <<< 64) 64)
    t.routes .nonFwding 0 64 0 = some 7 ∧ (t.fib .nonFwding).prefixLengthsInSearchOrder = [] := by
  have hzero : (s.fib .nonFwding).dstAddressLengthRefcounts 64 = 0 := h.count
  intro t
  constructor
  · exact h.present
  · have hfib : t.fib .nonFwding = tableRemove (tableInsert (s.fib .nonFwding) 0 (1#128 <<< 64) 64 8) 0
        (1#128 <<< 64) 64 := rfl
    have hinsert : tableInsert (s.fib .nonFwding) 0 (1#128 <<< 64) 64 8 = computePrefixLengthsInSearchOrder
        ⟨update (s.fib .nonFwding).ip6Hash ((1#128 <<< 64) &&& fibMasks 64, fibKey 0 64) (some 8),
          clibBitmapSet (clibBitmapSet [] 64 true) 64 true, (s.fib .nonFwding).prefixLengthsInSearchOrder,
          update (s.fib .nonFwding).dstAddressLengthRefcounts 64 1⟩ := by
      simp only [tableInsert, hzero, h.bitmap]
      rfl
    have hcount : update (s.fib .nonFwding).dstAddressLengthRefcounts 64 (1 : BitVec 32) 64 - 1 = 0 := by
      rw [update_self]
      rfl
    rw [hfib, hinsert, tableRemove]
    simp only [computePrefixLengthsInSearchOrder, hcount, if_true]
    decide +kernel

/-- After as many insertions of one prefix as a count can tell apart, another prefix of its length that comes and goes
    hides it. -/
theorem lookup_misses_after_wrap : ∃ ops : List FibOp,
    AllSteps RemovesPresent step init ops ∧
      (run step init ops).routes .nonFwding 0 64 0 = some 7 ∧
      ip6FibTableLookup (run step init ops).fib 0 0 128 = fibNodeIndexInvalid := by
  obtain ⟨n, hn⟩ : ∃ n, n + 1 = 2 ^ 32 := ⟨2 ^ 32 - 1, rfl⟩
  have hstored := Stored.replicate n (by omega)
  have hinserts (n : ℕ) (s : FibHistory) : AllSteps RemovesPresent step s
      (replicate n (.entryInsert 0 0 64 7)) := by
    induction n generalizing s with
    | zero => trivial
    | succ n ih => exact ⟨nofun, ih _⟩
  have hall := hinserts (n + 1) init
  generalize replicate (n + 1) (FibOp.entryInsert 0 0 64 7) = ops at hstored hall
  rw [hn] at hstored
  obtain ⟨hpresent, horder⟩ := hstored.hidden
  refine ⟨ops ++ [.entryInsert 0 (1#128 <<< 64) 64 8, .entryRemove 0 (1#128 <<< 64) 64],
    allSteps_append.mpr ⟨hall, nofun, fun _ => nofun, trivial⟩, ?_⟩
  rw [run, foldl_append]
  refine ⟨hpresent, ?_⟩
  -- no length is searched
  have hlens := congrArg (dropWhile fun l => decide (l > (128 : BitVec 32).toNat)) horder
  exact congrArg (fun lens => (lookupLoop _ 0 0 lens).getD fibNodeIndexInvalid) hlens

end Vpp.Fib
