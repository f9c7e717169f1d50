import Vpp.Ikev2.Process

/-! Memory safety of the payload loops: which message bodies make a parser read outside the message or
    follow the null result of a failed parse.

    The length of every payload is checked against the rest of the message before its parser runs.
    The parsers of SA, KE, NONCE, ID and DELETE need no more: a KE payload declared shorter than its own
    header gives a negative length to `vec_add`, which then copies nothing. The others go wrong on

      AUTH    at the end of the message, without its method;
      NOTIFY  that does not parse, whose null result is followed (except in INFORMATIONAL), and in
              IKE_SA_INIT a NAT detection hash of fewer than twenty bytes;
      TS      an entry whose address pair lies outside the message.

    The loops are safe exactly on the bodies without such a payload (`payloadLoops_memSafe_iff`). -/

namespace Vpp.Ikev2
open Vpp.Schemes List

/-! ### Fields of a payload -/

/-- The length a payload declares. -/
def declaredLength (mem : Bytes) : ℕ := fieldBe mem 2 2

/-- What `ikev2_check_payload_length` tests. -/
def Fits (mem : Bytes) : Prop := 4 ≤ declaredLength mem ∧ declaredLength mem ≤ mem.length
deriving Decidable

theorem payloadLength_eq {mem : Bytes} (h : 4 ≤ mem.length) :
    payloadLength mem = .ok (declaredLength mem) := by
  have hslice : slice mem 2 2 = .ok ((mem.drop 2).take 2) := slice_eq_ok.mpr ⟨h, rfl⟩
  rw [payloadLength, hslice, bind_ok, fieldBe_take_drop (by omega)]
  rfl

theorem Fits.four_le {mem : Bytes} (h : Fits mem) : 4 ≤ mem.length := h.1.trans h.2

/-- The check itself is safe, and is the test of `Fits`. -/
theorem ikev2CheckPayloadLength_eq (mem : Bytes) :
    ikev2CheckPayloadLength mem mem.length = .ok (if Fits mem then some (declaredLength mem) else none) := by
  unfold ikev2CheckPayloadLength
  split
  · next h =>
    rw [if_neg (by rintro ⟨h1, h2⟩; omega)]
    rfl
  · next h =>
    rw [payloadLength_eq (by omega), bind_ok]
    by_cases hfits : Fits mem
    · rw [if_neg (by rintro (h | h) <;> have := hfits.1 <;> have := hfits.2 <;> omega), if_pos hfits]; rfl
    · rw [if_pos (by simp only [Fits] at hfits; omega), if_neg hfits]; rfl

/-! ### The parsers

    For each parser: on which payloads it returns, and with what. -/

section
variable {α : Type} {mem : Bytes} {rlen : ℕ}

/-- The result of a parser is null exactly on a payload that it refuses. -/
def Refuses (x : Except Fault (Option α)) (bad : Bool) : Prop :=
  (bad = true ∧ x = .ok none) ∨ (bad = false ∧ ∃ v, x = .ok (some v))

/-- A parser returns exactly on a payload that lies inside the message. -/
def Reads (x : Except Fault α) (fits : Bool) : Prop :=
  (fits = true ∧ ∃ v, x = .ok v) ∨ (fits = false ∧ ¬ MemSafe x)

/-- The parser of an SA payload may read one proposal for ever, but it reads inside the payload. -/
def saHangs (mem : Bytes) : Bool := decide (ikev2ParseSaPayload mem mem.length = .error .divergence)

theorem memSafe_parseTransforms (hml : 4 + rlen ≤ mem.length) :
    ∀ n transformPtr, MemSafe (parseTransforms mem rlen n transformPtr)
  | 0, _ => memSafe_ok _
  | n + 1, transformPtr => by
    simp only [parseTransforms, memSafe_ite, memSafe_slice_bind, memSafe_pure, implies_true, true_and]
    intro hptr
    refine ⟨by omega, ?_⟩
    intro hlow hhigh
    refine ⟨by omega, ?_⟩
    rw [memSafe_bind]
    refine ⟨memSafe_parseTransforms hml n _, ?_⟩
    rintro (_ | ts) -
    · exact memSafe_ok _
    · exact memSafe_ok _

theorem memSafe_parseProposal (hml : 4 + rlen ≤ mem.length) (proposalPtr : ℕ) :
    MemSafe (parseProposal mem rlen proposalPtr) := by
  simp only [parseProposal, memSafe_ite, memSafe_slice_bind, memSafe_pure, implies_true, true_and]
  intro hptr
  refine ⟨by omega, ?_⟩
  intro _ _ hspi
  refine ⟨by omega, ?_⟩
  rw [memSafe_bind]
  refine ⟨memSafe_parseTransforms hml _ _, ?_⟩
  rintro (_ | ts) -
  · exact memSafe_ok _
  · exact memSafe_ok _

theorem memSafe_parseProposals {bodyLen : ℕ} (hml : 4 + rlen ≤ mem.length) :
    ∀ fuel proposalPtr v, MemSafe (parseProposals mem rlen bodyLen fuel proposalPtr v)
  | 0, _, _ => (memSafe_error _).mpr rfl
  | fuel + 1, proposalPtr, v => by
    rw [parseProposals, memSafe_bind]
    refine ⟨memSafe_parseProposal hml proposalPtr, ?_⟩
    rintro (_ | ⟨sap, proposal⟩) -
    · exact memSafe_ok _
    · simp only [memSafe_ite, memSafe_pure, implies_true, and_true]
      intro _
      exact memSafe_parseProposals hml fuel _ _

theorem memSafe_ikev2ParseSaPayload (h : 4 ≤ mem.length) (hle : rlen ≤ mem.length) :
    MemSafe (ikev2ParseSaPayload mem rlen) := by
  rw [ikev2ParseSaPayload, payloadLength_eq h, bind_ok]
  split
  · exact memSafe_ok _
  · exact memSafe_parseProposals (by omega) _ _ _

/-- The outcome of a safe computation is a value or an endless loop. -/
theorem ikev2ParseSaPayload_cases (h : 4 ≤ mem.length) :
    (saHangs mem = true ∧ ikev2ParseSaPayload mem mem.length = .error .divergence) ∨
      (saHangs mem = false ∧ ∃ v, ikev2ParseSaPayload mem mem.length = .ok v) := by
  cases hres : ikev2ParseSaPayload mem mem.length with
  | error f =>
    have hf : f = .divergence := memSafe_ikev2ParseSaPayload h (le_refl _) f hres
    subst hf
    exact .inl ⟨by simp [saHangs, hres], rfl⟩
  | ok v => exact .inr ⟨by simp [saHangs, hres], v, rfl⟩

theorem copyRest_ok (off : ℕ) (hf : Fits mem) : ∃ bs, copyRest mem off (declaredLength mem) = .ok bs := by
  have hle := hf.2
  unfold copyRest
  split
  · exact ⟨[], rfl⟩
  · exact ⟨_, slice_eq_ok.mpr ⟨by omega, rfl⟩⟩

theorem refuses_ke (hf : Fits mem) : Refuses (ikev2ParseKePayload mem mem.length) (decide (mem.length < 8)) := by
  rw [ikev2ParseKePayload, payloadLength_eq hf.four_le, bind_ok]
  by_cases hshort : mem.length < 8
  · exact .inl ⟨decide_eq_true hshort, by rw [if_pos hshort]; rfl⟩
  · obtain ⟨data, hdata⟩ := copyRest_ok 8 hf
    refine .inr ⟨decide_eq_false hshort, ?_⟩
    rw [if_neg hshort, slice_eq_ok.mpr ⟨by omega, rfl⟩, bind_ok, hdata]
    exact ⟨_, rfl⟩

/-- `ikev2_parse_nonce_payload` refuses the size. -/
def nonceBad (mem : Bytes) : Bool := decide (declaredLength mem < 20 ∨ declaredLength mem > 260)

theorem refuses_nonce (hf : Fits mem) : Refuses (ikev2ParseNoncePayload mem) (nonceBad mem) := by
  have hle := hf.2
  rw [ikev2ParseNoncePayload, payloadLength_eq hf.four_le, bind_ok]
  by_cases hbad : declaredLength mem < 4 + 16 ∨ declaredLength mem > 4 + 256
  · exact .inl ⟨decide_eq_true hbad, by rw [if_pos hbad]; rfl⟩
  · refine .inr ⟨decide_eq_false hbad, ?_⟩
    rw [if_neg hbad, slice_eq_ok.mpr ⟨by omega, rfl⟩]
    exact ⟨_, rfl⟩

/-- `ikev2_parse_id_payload` refuses the size. -/
def idBad (mem : Bytes) : Bool := decide (declaredLength mem < 8 ∨ declaredLength mem > mem.length % 2 ^ 16)

theorem refuses_id (hf : Fits mem) : Refuses (ikev2ParseIdPayload mem mem.length) (idBad mem) := by
  rw [ikev2ParseIdPayload, payloadLength_eq hf.four_le, bind_ok]
  by_cases hbad : declaredLength mem < 8 ∨ declaredLength mem > mem.length % 2 ^ 16
  · exact .inl ⟨decide_eq_true hbad, by rw [if_pos hbad]; rfl⟩
  · refine .inr ⟨decide_eq_false hbad, ?_⟩
    rw [if_neg hbad, slice_eq_ok.mpr ⟨by omega, rfl⟩, bind_ok, slice_eq_ok.mpr ⟨by omega, rfl⟩]
    exact ⟨_, rfl⟩

/-- The method of an authentication payload lies in the message. -/
def authFits (mem : Bytes) : Bool := decide (5 ≤ mem.length)

theorem reads_auth (hf : Fits mem) : Reads (ikev2ParseAuthPayload mem) (authFits mem) := by
  rw [ikev2ParseAuthPayload, payloadLength_eq hf.four_le, bind_ok]
  by_cases hlen : 5 ≤ mem.length
  · obtain ⟨data, hdata⟩ := copyRest_ok 8 hf
    refine .inl ⟨decide_eq_true hlen, ?_⟩
    rw [slice_eq_ok.mpr ⟨hlen, rfl⟩, bind_ok, hdata]
    exact ⟨_, rfl⟩
  · refine .inr ⟨decide_eq_false hlen, ?_⟩
    rw [memSafe_slice_bind]
    rintro ⟨hle, -⟩
    exact hlen hle

/-- The SPI size a notify payload declares, and the number of bytes behind the SPI. -/
def notifySpiSize (mem : Bytes) : ℕ := (field8 mem 5).toNat
def notifyDataLength (mem : Bytes) : ℕ := declaredLength mem - (8 + notifySpiSize mem)
def notifyMsgType (mem : Bytes) : BitVec 16 := BitVec.ofNat 16 (fieldBe mem 6 2)

/-- `ikev2_parse_notify_payload` does not return null. -/
def notifyParses (mem : Bytes) : Bool :=
  decide (8 ≤ mem.length ∧ (notifySpiSize mem = 0 ∨ notifySpiSize mem = 4) ∧
    8 + notifySpiSize mem ≤ mem.length)

theorem ikev2ParseNotifyPayload_cases (hf : Fits mem) :
    (notifyParses mem = false ∧ ikev2ParseNotifyPayload mem mem.length = .ok none) ∨
      (notifyParses mem = true ∧ ∃ n, ikev2ParseNotifyPayload mem mem.length = .ok (some n) ∧
        n.msgType = notifyMsgType mem ∧ n.data.length = notifyDataLength mem) := by
  have hle := hf.2
  have hsize : (field8 ((mem.drop 0).take 8) 5).toNat = notifySpiSize mem := by
    rw [field8_take_drop (by omega), zero_add]; rfl
  rw [ikev2ParseNotifyPayload, payloadLength_eq hf.four_le, bind_ok]
  by_cases hlen : 8 > mem.length
  · exact .inl ⟨decide_eq_false (by rintro ⟨h, -⟩; omega), by rw [if_pos hlen]; rfl⟩
  rw [if_neg hlen, slice_eq_ok.mpr ⟨by omega, rfl⟩, bind_ok, hsize]
  by_cases hspi : notifySpiSize mem ≠ 0 ∧ notifySpiSize mem ≠ 4
  · exact .inl ⟨decide_eq_false (by rintro ⟨-, h, -⟩; omega), by rw [if_pos hspi]; rfl⟩
  by_cases hroom : notifySpiSize mem = 4 ∧ 4 + 8 > mem.length
  · exact .inl ⟨decide_eq_false (by rintro ⟨-, -, h⟩; omega), by rw [if_neg hspi, if_pos hroom]; rfl⟩
  · refine .inr ⟨decide_eq_true (by omega), ?_⟩
    rw [if_neg hspi, if_neg hroom, slice_eq_ok.mpr ⟨by omega, rfl⟩, bind_ok,
      slice_eq_ok.mpr ⟨by omega, rfl⟩, bind_ok]
    refine ⟨_, rfl, ?_, ?_⟩
    · simp only
      rw [fieldBe_take_drop (by omega)]; rfl
    · simp only [length_take, length_drop, notifyDataLength]
      omega

/-- The entries of a traffic selector payload from `p` on have their address pairs inside the message,
    as far as the parser gets. -/
def tsEntriesFit (mem : Bytes) (rlen : ℕ) : ℕ → ℕ → Bool
  | 0, _ => true
  | nLeft + 1, p =>
    let tsType := field8 mem (8 + p)
    let size := if tsType = tsIpv4AddrRange then 4 else 16
    if p + 8 ≥ rlen ∨ (tsType ≠ tsIpv4AddrRange ∧ tsType ≠ tsIpv6AddrRange) then true
    else decide (8 + p + 8 + 2 * size ≤ mem.length) && tsEntriesFit mem rlen nLeft (p + 8 + 2 * size)

def tsFits (mem : Bytes) : Bool :=
  decide (mem.length < 8) || tsEntriesFit mem (mem.length - 8) (field8 mem 4).toNat 0

theorem reads_tsEntries (hml : mem.length = 8 + rlen) : ∀ nLeft p,
    Reads (parseTsEntries mem rlen nLeft p) (tsEntriesFit mem rlen nLeft p)
  | 0, _ => .inl ⟨rfl, _, rfl⟩
  | nLeft + 1, p => by
    have htype : field8 ((mem.drop (8 + p)).take 8) 0 = field8 mem (8 + p) := field8_take_drop (by omega)
    rw [Reads, tsEntriesFit, parseTsEntries]
    by_cases hend : p + 8 ≥ rlen
    · exact .inl ⟨if_pos (.inl hend), by rw [if_pos hend]; exact ⟨_, rfl⟩⟩
    rw [if_neg hend, slice_eq_ok.mpr ⟨by omega, rfl⟩, bind_ok, htype]
    by_cases hbad : field8 mem (8 + p) ≠ tsIpv4AddrRange ∧ field8 mem (8 + p) ≠ tsIpv6AddrRange
    · exact .inl ⟨if_pos (.inr hbad), by rw [if_pos hbad]; exact ⟨_, rfl⟩⟩
    rw [if_neg hbad, if_neg (by rintro (h | h); exacts [hend h, hbad h])]
    simp only
    generalize (if field8 mem (8 + p) = tsIpv4AddrRange then 4 else 16) = size
    by_cases hpair : 8 + p + 8 + 2 * size ≤ mem.length
    · rw [parseAddrPair, slice_eq_ok.mpr ⟨hpair, rfl⟩, decide_eq_true hpair, Bool.true_and]
      rcases reads_tsEntries hml nLeft (p + 8 + 2 * size) with ⟨hfit, v, hv⟩ | ⟨hfit, hv⟩
      · refine .inl ⟨hfit, ?_⟩
        simp only [bind_ok, pure_bind, hv]
        cases v <;> exact ⟨_, rfl⟩
      · refine .inr ⟨hfit, ?_⟩
        simp only [bind_ok, pure_bind, memSafe_bind]
        rintro ⟨hsafe, -⟩
        exact hv hsafe
    · refine .inr ⟨by rw [decide_eq_false hpair, Bool.false_and], ?_⟩
      rw [memSafe_bind, parseAddrPair, memSafe_slice_bind]
      rintro ⟨⟨hle, -⟩, -⟩
      exact hpair hle

theorem reads_ts : Reads (ikev2ParseTsPayload mem mem.length) (tsFits mem) := by
  have hnum : field8 ((mem.drop 0).take 8) 4 = field8 mem 4 := by
    rw [field8_take_drop (by omega), zero_add]
  rw [tsFits, ikev2ParseTsPayload]
  by_cases hlen : mem.length < 8
  · exact .inl ⟨by simp [hlen], by rw [if_pos (by omega)]; exact ⟨_, rfl⟩⟩
  rw [if_neg (by omega), slice_eq_ok.mpr ⟨by omega, rfl⟩, bind_ok, hnum, decide_eq_false hlen, Bool.false_or]
  rcases reads_tsEntries (by omega : mem.length = 8 + (mem.length - 8)) (field8 mem 4).toNat 0 with
    ⟨hfit, v, hv⟩ | ⟨hfit, hv⟩
  · refine .inl ⟨hfit, ?_⟩
    rw [hv, bind_ok]
    cases v <;> exact ⟨_, rfl⟩
  · refine .inr ⟨hfit, ?_⟩
    rw [memSafe_bind]
    rintro ⟨hsafe, -⟩
    exact hv hsafe

theorem parseDeleteSpis_ok (protocolId : Byte) : ∀ n i, 8 + 4 * (i + n) ≤ mem.length →
    ∃ v, parseDeleteSpis mem protocolId n i = .ok v
  | 0, _, _ => ⟨_, rfl⟩
  | n + 1, i, h => by
    obtain ⟨v, hv⟩ := parseDeleteSpis_ok protocolId n (i + 1) (by omega)
    rw [parseDeleteSpis, slice_eq_ok.mpr ⟨by omega, rfl⟩, bind_ok, hv, bind_ok]
    exact ⟨_, rfl⟩

theorem reads_delete : Reads (ikev2ParseDeletePayload mem mem.length) true := by
  refine .inl ⟨rfl, ?_⟩
  rw [ikev2ParseDeletePayload]
  split
  · exact ⟨_, rfl⟩
  · rw [slice_eq_ok.mpr ⟨by omega, rfl⟩, bind_ok]
    split
    · exact ⟨_, rfl⟩
    · dsimp only
      split
      · exact ⟨_, rfl⟩
      · exact parseDeleteSpis_ok _ _ _ (by omega)

def isCritical (mem : Bytes) : Bool := decide (field8 mem 1 &&& payloadFlagCritical ≠ 0)

theorem payloadIsCritical_eq (hf : Fits mem) : payloadIsCritical mem = .ok (isCritical mem) := by
  have hle := hf.four_le
  rw [payloadIsCritical, slice_eq_ok.mpr ⟨by omega, rfl⟩, bind_ok, field8_take_drop (by omega)]
  rfl

end

/-! ### The walk -/

/-- What a payload does to a loop: whether its parser is safe on it, and whether the loop ends there. -/
structure Verdict where
  safe : Bool
  stops : Bool

/-- The payloads a loop gets to, up to one it stops at, are all safe for it. -/
def walkSafe (verdict : Byte → Bytes → Verdict) : ℕ → Byte → Bytes → Bool
  | 0, _, _ => true
  | fuel + 1, payload, mem =>
    if payload = payloadNone ∨ ¬ Fits mem then true
    else (verdict payload mem).safe && ((verdict payload mem).stops ||
      walkSafe verdict fuel (field8 mem 0) (mem.drop (declaredLength mem)))

/-- A step of a loop is safe if and only if its verdict says so, and then goes on unless it stops. -/
structure FlowSpec {σ : Type} (x : Except Fault (Flow σ)) (v : Verdict) : Prop where
  memSafe_iff : MemSafe x ↔ v.safe = true
  next_iff : v.safe = true → ((∃ s, x = .ok (.next s)) ↔ v.stops = false)

section
variable {σ : Type} {handle : σ → Byte → Bytes → ℕ → Except Fault (Flow σ)}
variable {verdict : Byte → Bytes → Verdict}

theorem memSafe_payloadLoop_iff
    (hb : ∀ s payload mem, Fits mem → FlowSpec (handle s payload mem mem.length) (verdict payload mem))
    (untilEnd : Bool) (malformed : σ → σ) : ∀ fuel payload (mem : Bytes) s,
    MemSafe (payloadLoop untilEnd malformed handle fuel payload mem mem.length s) ↔
      walkSafe verdict fuel payload mem = true
  | 0, _, _, _ => by simp [payloadLoop, walkSafe, throw, throwThe, MonadExceptOf.throw]
  | fuel + 1, payload, mem, s => by
    rw [payloadLoop, walkSafe]
    by_cases hnone : payload = payloadNone
    · rw [if_pos (.inl hnone), if_pos (.inl hnone)]
      exact iff_of_true (memSafe_ok _) rfl
    by_cases hfits : Fits mem
    · have hlen := hfits.four_le
      have hcont : ¬ (payload = payloadNone ∨ (untilEnd = true ∧ (mem.length : ℤ) = 0)) := by
        rintro (h | ⟨-, h⟩)
        · exact hnone h
        · omega
      have hrest : (mem.length : ℤ) - declaredLength mem = (mem.drop (declaredLength mem)).length := by
        rw [length_drop, Nat.cast_sub hfits.2]
      have hbody := hb s payload mem hfits
      rw [if_neg hcont, if_neg (by rintro (h | h); exacts [hnone h, h hfits]), ikev2CheckPayloadLength_eq,
        bind_ok, if_pos hfits, Bool.and_eq_true]
      simp only
      rw [Int.toNat_natCast, memSafe_bind, hbody.memSafe_iff]
      refine and_congr_right fun hsafe => ?_
      have hnext := hbody.next_iff hsafe
      cases hstop : (verdict payload mem).stops with
      | true =>
        -- whatever the body returns, the loop is left
        refine iff_of_true ?_ rfl
        intro flow hflow
        cases flow with
        | exit s' => exact memSafe_ok _
        | next s' => exact absurd (hnext.mp ⟨s', hflow⟩) (by simp [hstop])
      | false =>
        obtain ⟨s', hs'⟩ := hnext.mpr hstop
        simp only [hs', Except.ok.injEq, forall_eq', Bool.false_or]
        rw [memSafe_slice_bind, field8_take_drop (by omega), hrest,
          memSafe_payloadLoop_iff hb untilEnd malformed fuel]
        exact and_iff_right (by omega)
    · rw [if_pos (Or.inr hfits), ikev2CheckPayloadLength_eq, bind_ok, if_neg hfits, memSafe_ite]
      exact iff_of_true ⟨fun _ => memSafe_ok _, fun _ => memSafe_ok _⟩ rfl

/-! ### The steps of the loop bodies -/

theorem FlowSpec.next (s : σ) : FlowSpec (pure (.next s)) ⟨true, false⟩ :=
  ⟨iff_of_true (memSafe_ok _) rfl, fun _ => iff_of_true ⟨s, rfl⟩ rfl⟩

theorem FlowSpec.exit (s : σ) : FlowSpec (pure (.exit s)) ⟨true, true⟩ := by
  refine ⟨iff_of_true (memSafe_ok _) rfl, fun _ => iff_of_false ?_ (by simp)⟩
  rintro ⟨s', h⟩
  cases h

theorem FlowSpec.ite {c : Prop} [Decidable c] {x y : Except Fault (Flow σ)} {v w : Verdict}
    (hx : c → FlowSpec x v) (hy : ¬c → FlowSpec y w) :
    FlowSpec (if c then x else y) (if c then v else w) := by
  split
  · next h => exact hx h
  · next h => exact hy h

theorem FlowSpec.fault {x : Except Fault (Flow σ)} {stops : Bool} (h : ¬ MemSafe x) :
    FlowSpec x ⟨false, stops⟩ :=
  ⟨iff_of_false h (by simp), by simp⟩

theorem FlowSpec.refuses {α : Type} {x : Except Fault (Option α)} {bad : Bool} (hx : Refuses x bad)
    {k : Option α → Except Fault (Flow σ)} (hnone : FlowSpec (k none) ⟨true, true⟩)
    (hk : ∀ v, FlowSpec (k (some v)) ⟨true, false⟩) : FlowSpec (x >>= k) ⟨true, bad⟩ := by
  rcases hx with ⟨hbad, heq⟩ | ⟨hbad, v, heq⟩
  · rw [hbad, heq, bind_ok]; exact hnone
  · rw [hbad, heq, bind_ok]; exact hk v

theorem FlowSpec.reads {α : Type} {x : Except Fault α} {fits : Bool} (hx : Reads x fits)
    {k : α → Except Fault (Flow σ)} (hk : ∀ v, FlowSpec (k v) ⟨true, false⟩) :
    FlowSpec (x >>= k) ⟨fits, false⟩ := by
  rcases hx with ⟨hfit, v, heq⟩ | ⟨hfit, hunsafe⟩
  · rw [hfit, heq, bind_ok]; exact hk v
  · rw [hfit]
    refine .fault fun hsafe => ?_
    exact hunsafe ((memSafe_bind _ _).mp hsafe).1

variable {mem : Bytes}

section

variable (hf : Fits mem)
include hf

theorem FlowSpec.sa {k : List SaProposal → Except Fault (Flow σ)}
    (hk : ∀ v, FlowSpec (k v) ⟨true, false⟩) :
    FlowSpec (ikev2ParseSaPayload mem mem.length >>= k) ⟨true, saHangs mem⟩ := by
  rcases ikev2ParseSaPayload_cases hf.four_le with ⟨hh, heq⟩ | ⟨hh, v, heq⟩
  · rw [hh, heq]
    refine ⟨iff_of_true ((memSafe_error _).mpr rfl) rfl, fun _ => iff_of_false ?_ (by simp)⟩
    rintro ⟨s, h⟩
    cases h
  · rw [hh, heq, bind_ok]; exact hk v

/-- A notify payload whose null result is followed unchecked. -/
theorem FlowSpec.notify {k : Notify → Except Fault (Flow σ)} {safe : Bool}
    (hk : ∀ n, n.msgType = notifyMsgType mem → n.data.length = notifyDataLength mem →
      FlowSpec (k n) ⟨safe, false⟩) :
    FlowSpec (ikev2ParseNotifyPayload mem mem.length >>= fun n => deref n >>= k)
      ⟨notifyParses mem && safe, false⟩ := by
  rcases ikev2ParseNotifyPayload_cases hf with ⟨hp, heq⟩ | ⟨hp, n, heq, htype, hlen⟩
  · rw [hp, heq, Bool.false_and]
    refine .fault fun hsafe => ?_
    rw [bind_ok, memSafe_bind] at hsafe
    exact absurd hsafe.1 (by simp)
  · rw [hp, heq, Bool.true_and]; exact hk n htype hlen

end

theorem FlowSpec.unknown (hf : Fits mem) (s s' : σ) :
    FlowSpec (payloadIsCritical mem >>= fun c => if c = true then pure (.exit s) else pure (.next s'))
      ⟨true, isCritical mem⟩ := by
  rw [payloadIsCritical_eq hf, bind_ok]
  cases isCritical mem with
  | true => exact .exit s
  | false => exact .next s'

end

/-! ### The five loops -/

/-- The hash of a NAT detection notify is complete, or missing altogether. -/
def natHashFits (mem : Bytes) : Bool :=
  decide (notifyMsgType mem = notifyMsgNatDetectionSourceIp ∨
      notifyMsgType mem = notifyMsgNatDetectionDestinationIp →
    notifyDataLength mem = 0 ∨ 20 ≤ notifyDataLength mem)

def saInitVerdict (payload : Byte) (mem : Bytes) : Verdict :=
  if payload = payloadSa then ⟨true, saHangs mem⟩
  else if payload = payloadKe then ⟨true, decide (mem.length < 8)⟩
  else if payload = payloadNonce then ⟨true, nonceBad mem⟩
  else if payload = payloadNotify then ⟨notifyParses mem && natHashFits mem, false⟩
  else if payload = payloadVendor then ⟨true, false⟩
  else ⟨true, isCritical mem⟩

def authVerdict (payload : Byte) (mem : Bytes) : Verdict :=
  if payload = payloadSa then ⟨true, saHangs mem⟩
  else if payload = payloadIdi then ⟨true, idBad mem⟩
  else if payload = payloadIdr then ⟨true, idBad mem⟩
  else if payload = payloadAuth then ⟨authFits mem, false⟩
  else if payload = payloadNotify then ⟨notifyParses mem && true, false⟩
  else if payload = payloadVendor then ⟨true, false⟩
  else if payload = payloadTsi then ⟨tsFits mem, false⟩
  else if payload = payloadTsr then ⟨tsFits mem, false⟩
  else ⟨true, isCritical mem⟩

def createChildVerdict (payload : Byte) (mem : Bytes) : Verdict :=
  if payload = payloadSa then ⟨true, saHangs mem⟩
  else if payload = payloadKe then ⟨true, decide (mem.length < 8)⟩
  else if payload = payloadNotify then ⟨notifyParses mem && true, false⟩
  else if payload = payloadDelete then ⟨true, false⟩
  else if payload = payloadVendor then ⟨true, false⟩
  else if payload = payloadNonce then ⟨true, nonceBad mem⟩
  else if payload = payloadTsi then ⟨tsFits mem, false⟩
  else if payload = payloadTsr then ⟨tsFits mem, false⟩
  else ⟨true, isCritical mem⟩

/-- Everything an INFORMATIONAL message can hold is handled safely. -/
def informationalVerdict (payload : Byte) (mem : Bytes) : Verdict :=
  if payload = payloadNotify then ⟨true, !notifyParses mem⟩
  else if payload = payloadDelete then ⟨true, false⟩
  else if payload = payloadVendor then ⟨true, false⟩
  else ⟨true, isCritical mem⟩

section
variable {mem : Bytes}

theorem FlowSpec.natMismatch {σ : Type} {sha data : Bytes} {k : Bool → Except Fault (Flow σ)}
    (hk : ∀ b, FlowSpec (k b) ⟨true, false⟩) :
    FlowSpec (natMismatch sha data >>= k) ⟨decide (data.length = 0 ∨ 20 ≤ data.length), false⟩ := by
  unfold Ikev2.natMismatch
  by_cases hnil : data = []
  · rw [if_pos hnil, pure_bind, hnil]; exact hk false
  · have hpos : data.length ≠ 0 := fun h => hnil (length_eq_zero_iff.mp h)
    rw [if_neg hnil]
    by_cases hlen : 20 ≤ data.length
    · rw [slice_eq_ok.mpr ⟨by omega, rfl⟩, bind_ok, pure_bind, decide_eq_true (Or.inr hlen)]
      exact hk _
    · rw [decide_eq_false (by omega)]
      refine .fault fun hsafe => ?_
      have hread := (memSafe_slice_bind _ _ _ _).mp ((memSafe_bind _ _).mp hsafe).1
      omega

/-- The two NAT detection notifies of IKE_SA_INIT, and any other. -/
theorem FlowSpec.natDetection {σ : Type} {n : Notify} (htype : n.msgType = notifyMsgType mem)
    (hlen : n.data.length = notifyDataLength mem) {x y z : Except Fault (Flow σ)}
    (hx : FlowSpec x ⟨decide (n.data.length = 0 ∨ 20 ≤ n.data.length), false⟩)
    (hy : FlowSpec y ⟨decide (n.data.length = 0 ∨ 20 ≤ n.data.length), false⟩)
    (hz : FlowSpec z ⟨true, false⟩) :
    FlowSpec (if n.msgType = notifyMsgNatDetectionSourceIp then x
      else if n.msgType = notifyMsgNatDetectionDestinationIp then y else z) ⟨natHashFits mem, false⟩ := by
  rw [hlen] at hx hy
  rw [natHashFits, ← htype]
  by_cases hsrc : n.msgType = notifyMsgNatDetectionSourceIp
  · rw [if_pos hsrc]; simpa [hsrc] using hx
  · by_cases hdst : n.msgType = notifyMsgNatDetectionDestinationIp
    · rw [if_neg hsrc, if_pos hdst]; simpa [hdst] using hy
    · rw [if_neg hsrc, if_neg hdst, decide_eq_true (by rintro (h | h); exacts [absurd h hsrc, absurd h hdst])]
      exact hz

theorem saInitReqPayload_spec (cr : Crypto) (rx : Rx) (sa : Sa) (payload : Byte) (hf : Fits mem) :
    FlowSpec (saInitReqPayload cr rx sa payload mem mem.length) (saInitVerdict payload mem) := by
  refine .ite (fun _ => .sa hf fun _ => .next _) fun _ => ?_
  refine .ite (fun _ => .refuses (refuses_ke hf) (.exit _) fun _ => .next _) fun _ => ?_
  refine .ite (fun _ => .refuses (refuses_nonce hf) (.exit _) fun _ => .next _) fun _ => ?_
  refine .ite (fun _ => .notify hf fun n htype hlen => ?_) fun _ => ?_
  · exact .natDetection htype hlen (.natMismatch fun _ => .next _) (.natMismatch fun _ => .next _) (.next _)
  exact .ite (fun _ => .next _) fun _ => .unknown hf _ _

theorem saInitRespPayload_spec (cr : Crypto) (rx : Rx) (s : Sa × BitVec 32) (payload : Byte)
    (hf : Fits mem) : FlowSpec (saInitRespPayload cr rx s payload mem mem.length) (saInitVerdict payload mem) := by
  refine .ite (fun _ => .sa hf fun v => ?_) fun _ => ?_
  · cases v <;> exact .next _
  refine .ite (fun _ => .refuses (refuses_ke hf) (.exit _) fun _ => .next _) fun _ => ?_
  refine .ite (fun _ => .refuses (refuses_nonce hf) (.exit _) fun _ => .next _) fun _ => ?_
  refine .ite (fun _ => .notify hf fun n htype hlen => ?_) fun _ => ?_
  · exact .natDetection htype hlen (.natMismatch fun _ => .next _) (.natMismatch fun _ => .next _) (.next _)
  exact .ite (fun _ => .next _) fun _ => .unknown hf _ _

theorem authPayload_spec (s : Sa × ChildSa) (payload : Byte) (hf : Fits mem) :
    FlowSpec (authPayload s payload mem mem.length) (authVerdict payload mem) := by
  refine .ite (fun _ => .sa hf fun _ => ?_) fun _ => ?_
  · split <;> exact .next _
  refine .ite (fun _ => .refuses (refuses_id hf) (.exit _) fun _ => .next _) fun _ => ?_
  refine .ite (fun _ => .refuses (refuses_id hf) (.exit _) fun _ => .next _) fun _ => ?_
  refine .ite (fun _ => .reads (reads_auth hf) fun _ => ?_) fun _ => ?_
  · dsimp only
    split <;> exact .next _
  refine .ite (fun _ => .notify hf fun n _ _ => ?_) fun _ => ?_
  · split <;> exact .next _
  refine .ite (fun _ => .next _) fun _ => ?_
  refine .ite (fun _ => .reads reads_ts fun _ => .next _) fun _ => ?_
  exact .ite (fun _ => .reads reads_ts fun _ => .next _) fun _ => .unknown hf _ _

theorem informationalPayload_spec (sa : Sa) (payload : Byte) (hf : Fits mem) :
    FlowSpec (informationalPayload sa payload mem mem.length) (informationalVerdict payload mem) := by
  refine .ite (fun _ => ?_) fun _ => ?_
  · -- the null result is checked here
    rcases ikev2ParseNotifyPayload_cases hf with ⟨hp, heq⟩ | ⟨hp, n, heq, -, -⟩
    · rw [hp, heq, bind_ok]; exact .exit _
    · rw [hp, heq, bind_ok]
      dsimp only
      split <;> exact .next _
  refine .ite (fun _ => .reads reads_delete fun _ => .next _) fun _ => ?_
  exact .ite (fun _ => .next _) fun _ => .unknown hf _ _

theorem createChildPayload_spec (s : CreateChild) (payload : Byte) (hf : Fits mem) :
    FlowSpec (createChildPayload s payload mem mem.length) (createChildVerdict payload mem) := by
  refine .ite (fun _ => .sa hf fun _ => .next _) fun _ => ?_
  refine .ite (fun _ => .refuses (refuses_ke hf) (.exit _) fun _ => .next _) fun _ => ?_
  refine .ite (fun _ => .notify hf fun n _ _ => ?_) fun _ => ?_
  · split <;> exact .next _
  refine .ite (fun _ => .reads reads_delete fun _ => .next _) fun _ => ?_
  refine .ite (fun _ => .next _) fun _ => ?_
  refine .ite (fun _ => .refuses (refuses_nonce hf) (.exit _) fun _ => .next _) fun _ => ?_
  refine .ite (fun _ => .reads reads_ts fun _ => .next _) fun _ => ?_
  exact .ite (fun _ => .reads reads_ts fun _ => .next _) fun _ => .unknown hf _ _

/-- A walk on which every payload is safe. -/
theorem walkSafe_of_safe {verdict : Byte → Bytes → Verdict}
    (h : ∀ payload mem, (verdict payload mem).safe = true) :
    ∀ fuel payload mem, walkSafe verdict fuel payload mem = true
  | 0, _, _ => rfl
  | fuel + 1, payload, mem => by
    rw [walkSafe, h, walkSafe_of_safe h fuel]
    simp

theorem informationalVerdict_safe (payload : Byte) (mem : Bytes) :
    (informationalVerdict payload mem).safe = true := by
  unfold informationalVerdict
  split_ifs <;> rfl

end

/-- The bodies each exchange's loop is safe on. -/
def SaInitClean (payload : Byte) (mem : Bytes) : Prop := walkSafe saInitVerdict (mem.length + 1) payload mem = true
def AuthClean (payload : Byte) (mem : Bytes) : Prop := walkSafe authVerdict (mem.length + 1) payload mem = true
def CreateChildClean (payload : Byte) (mem : Bytes) : Prop :=
  walkSafe createChildVerdict (mem.length + 1) payload mem = true

/-- Every payload loop, on every body and from every state, is memory safe exactly on the clean bodies;
    the loop of INFORMATIONAL is safe on all. -/
theorem payloadLoops_memSafe_iff (cr : Crypto) (rx : Rx) (payload : Byte) (mem : Bytes) :
    (∀ sa, MemSafe (saInitReqLoop cr rx payload mem sa) ↔ SaInitClean payload mem) ∧
      (∀ s, MemSafe (saInitRespLoop cr rx payload mem s) ↔ SaInitClean payload mem) ∧
      (∀ s, MemSafe (authLoop payload mem mem.length s) ↔ AuthClean payload mem) ∧
      (∀ sa, MemSafe (informationalLoop payload mem mem.length sa)) ∧
      (∀ s, MemSafe (createChildLoop payload mem mem.length s) ↔ CreateChildClean payload mem) := by
  refine ⟨fun sa => ?_, fun s => ?_, fun s => ?_, fun sa => ?_, fun s => ?_⟩
  · exact memSafe_payloadLoop_iff (fun s p m => saInitReqPayload_spec cr rx s p) _ _ _ _ _ _
  · exact memSafe_payloadLoop_iff (fun s p m => saInitRespPayload_spec cr rx s p) _ _ _ _ _ _
  · exact memSafe_payloadLoop_iff (fun s p m => authPayload_spec s p) _ _ _ _ _ _
  · have hiff := memSafe_payloadLoop_iff (fun s p m => @informationalPayload_spec m s p) true id
      (mem.length + 1) payload mem sa
    exact hiff.mpr (walkSafe_of_safe informationalVerdict_safe _ _ _)
  · exact memSafe_payloadLoop_iff (fun s p m => createChildPayload_spec s p) _ _ _ _ _ _

/-- The null result for a notify with an SPI of three bytes is followed; a NAT detection hash of one byte is
    compared over twenty; the addresses of a traffic selector are read behind the end of the message. -/
theorem payloadLoops_fault :
    let rx := Rx.ofBody exchangeSaInit hdrFlagInitiator payloadNotify []
    let badSpi : Bytes := [0, 0, 0, 8, 0, 3, 0, 0]
    let shortHash : Bytes := [0, 0, 0, 9, 0, 0, 0x40, 4, 7]
    let cutTs : Bytes := [0, 0, 0, 17, 1, 0, 0, 0, 7, 0, 0, 16, 0, 0, 0, 0, 1]
    saInitReqLoop Crypto.zero rx payloadNotify badSpi {} = .error .nullDeref ∧
      ¬ MemSafe (saInitReqLoop Crypto.zero rx payloadNotify badSpi {}) ∧
      saInitReqLoop Crypto.zero rx payloadNotify shortHash {} = .error .outOfBounds ∧
      authLoop payloadTsi cutTs cutTs.length ({}, {}) = .error .outOfBounds := by
  intro rx badSpi shortHash cutTs
  have hnull : saInitReqLoop Crypto.zero rx payloadNotify badSpi {} = .error .nullDeref := by decide +kernel
  refine ⟨hnull, ?_, by decide +kernel, by decide +kernel⟩
  rw [hnull, memSafe_error]
  decide

end Vpp.Ikev2
