import Vpp.Ikev2.ParserSafety
import Vpp.Ikev2.SaRoundTrip

/-! Reading back NOTIFY and DELETE payloads.

    The header of a NOTIFY payload names the size of an SPI, which is the first part of what follows:

        | .. | length | protocol | spi_size | msg_type | SPI | data |

    `ikev2_payload_add_notify_2` sets `spi_size` for a notify with an SPI, but it never writes the SPI: its caller has
    to put it in front of the data. A DELETE payload carries the number of its SPIs, and the reader goes by that
    number; the length in the header, of 16 bits, may have wrapped around. -/

namespace Vpp.Ikev2
open Vpp.Schemes List Notify
open BitVec (ofNat)

/-! ### Chains with a length that may have wrapped around -/

/-- The chain is `pre` and one more payload with the content `body`, whatever length its header names. -/
structure PayloadChain.Carries (c : PayloadChain) (pre body : Bytes) : Prop where
  off : c.lastHdrOff = pre.length
  data : ∃ len, len.length = 2 ∧ c.data = pre ++ ([0, 0] ++ (len ++ body))

section
variable {c : PayloadChain} {pre body : Bytes}

theorem PayloadChain.Holds.carries (h : c.Holds pre body) : c.Carries pre body :=
  ⟨h.off, _, length_toBe _ _, h.data⟩

theorem PayloadChain.Carries.addData (h : c.Carries pre body) (d : Bytes) :
    (ikev2PayloadAddData c d).Carries pre (body ++ d) := by
  obtain ⟨len, hlen, hdata⟩ := h.data
  refine ⟨h.off, toBe 2 (fieldBe c.data (c.lastHdrOff + 2) 2 + d.length), length_toBe _ _, ?_⟩
  simp only [ikev2PayloadAddData]
  have hassoc : c.data ++ d = pre ++ [0, 0] ++ (len ++ (body ++ d)) := by rw [hdata]; simp
  rw [hassoc, writeAt_middle _ _ _ _ (by simp [h.off]) (by simp [hlen])]
  simp

/-- Appending many times. -/
theorem PayloadChain.Carries.foldl {ι : Type} (d : ι → Bytes) (is : List ι) (h : c.Carries pre body) :
    (is.foldl (fun c i => ikev2PayloadAddData c (d i)) c).Carries pre (body ++ is.flatMap d) := by
  induction is generalizing c body with
  | nil => simpa using h
  | cons i is ih =>
    rw [foldl_cons, flatMap_cons, ← append_assoc]
    exact ih (h.addData (d i))

end

/-! ### NOTIFY -/

/-- What the caller hands to the writer besides the notify: the SPI, where there is one, and the data. -/
def Notify.content (n : Notify) : Bytes := (if n.spi ≠ 0 then toBe 4 n.spi.toNat else []) ++ n.data

/-- The payload that `ikev2_payload_add_notify_2` adds to the chain. -/
def notifyPayload (c : PayloadChain) (n : Notify) (data : Bytes) : Bytes :=
  (ikev2PayloadAddNotify2 c n.msgType data (some n)).data.drop c.data.length

/-- The SPI size that is written. -/
def Notify.spiSize (n : Notify) : ℕ := if n.spi ≠ 0 then 4 else 0

section
variable {c : PayloadChain} {n : Notify} {data : Bytes}

theorem notifyPayload_eq (hc : c.WF) (n : Notify) (data : Bytes) :
    notifyPayload c n data = [0, 0] ++ (toBe 2 (8 + data.length) ++
      ([n.protocolId, ofNat 8 n.spiSize] ++ toBe 2 n.msgType.toNat ++ data)) := by
  obtain ⟨pre, hpre, hhdr⟩ := addHdr_holds hc payloadNotify 4
  have hmsg := hhdr.setHdr 2 (toBe 2 n.msgType.toNat) (by simp)
  have hproto := hmsg.setHdr 0 [n.protocolId] (by rw [length_writeAt (by simp)]; simp)
  have hbody : writeAt (writeAt (replicate 4 0) 2 (toBe 2 n.msgType.toNat)) 0 [n.protocolId] =
      [n.protocolId, 0] ++ toBe 2 n.msgType.toNat := by
    simp [writeAt, toBe]
  -- the size of the SPI is set where there is one
  set c' := ((ikev2PayloadAddHdr c payloadNotify 8).setHdr 6 (toBe 2 n.msgType.toNat)).setHdr 4 [n.protocolId]
  have hsize : (if n.spi ≠ 0 then c'.setHdr 5 [4] else c').Holds pre
      ([n.protocolId, ofNat 8 n.spiSize] ++ toBe 2 n.msgType.toNat) := by
    unfold Notify.spiSize
    by_cases hspi : n.spi ≠ 0
    · rw [if_pos hspi, if_pos hspi]
      have hset := hproto.setHdr 1 [4] (by simp)
      have hwrite : writeAt ([n.protocolId, 0] ++ toBe 2 n.msgType.toNat) 1 [4] =
          [n.protocolId, ofNat 8 4] ++ toBe 2 n.msgType.toNat := by simp [writeAt, toBe]
      exact hset
    · rw [if_neg hspi, if_neg hspi]
      exact hproto
  have hall := hsize.addData data (by simp)
  have hlen : 4 + ([n.protocolId, ofNat 8 n.spiSize] ++ toBe 2 n.msgType.toNat ++ data).length =
      8 + data.length := by simp; omega
  rw [notifyPayload, ← hpre, ← hlen]
  exact hall.drop_data

/-- What is read of a NOTIFY payload whose length did not wrap around: the first bytes are the SPI. -/
theorem ikev2ParseNotifyPayload_notifyPayload (hc : c.WF) (hfit : 8 + data.length < 2 ^ 16)
    (hspi : n.spiSize ≤ data.length) (rest : Bytes) {rlen : ℕ} (hrlen : 8 + data.length ≤ rlen) :
    ikev2ParseNotifyPayload (notifyPayload c n data ++ rest) rlen =
      .ok (some ⟨n.msgType, n.protocolId, ofNat 32 (ofBe (data.take n.spiSize)), data.drop n.spiSize⟩) := by
  rw [notifyPayload_eq hc]
  generalize hmem : [0, 0] ++ (toBe 2 (8 + data.length) ++
    ([n.protocolId, ofNat 8 n.spiSize] ++ toBe 2 n.msgType.toNat ++ data)) ++ rest = mem
  set hdr := [0, 0] ++ (toBe 2 (8 + data.length) ++ ([n.protocolId, ofNat 8 n.spiSize] ++ toBe 2 n.msgType.toNat))
    with hdef
  have hhdr : mem.drop 0 = hdr ++ (data ++ rest) := by simp [← hmem, hdef]
  have hlen : mem.length = 8 + data.length + rest.length := by
    rw [← hmem]
    simp
    omega
  have hread := slice_of_drop hhdr (n := 8) (by simp [hdef]) (Nat.zero_le _)
  have hbody := drop_add_of_drop (p := 0) (k := 8) hhdr (by simp [hdef])
  have hplen : payloadLength mem = .ok (8 + data.length) := by
    rw [← hmem, append_assoc, append_assoc]
    exact payloadLength_hdr hfit
  -- the header
  have hsize : n.spiSize = 0 ∨ n.spiSize = 4 := by unfold Notify.spiSize; split <;> simp
  have hf5 : (field8 hdr 5).toNat = n.spiSize := by
    show (ofNat 8 n.spiSize).toNat = _
    rw [BitVec.toNat_ofNat]
    omega
  have hf4 : field8 hdr 4 = n.protocolId := rfl
  have hf6 : ofNat 16 (fieldBe hdr 6 2) = n.msgType := by
    have hassoc : hdr = ([0, 0] ++ (toBe 2 (8 + data.length) ++ [n.protocolId, ofNat 8 n.spiSize])) ++
        (toBe 2 n.msgType.toNat ++ []) := by simp [hdef]
    rw [hassoc, fieldBe_toBe (by simp) (by have := n.msgType.isLt; omega), BitVec.ofNat_toNat, BitVec.setWidth_eq]
  -- what follows it
  have hsplit : mem.drop 8 = data.take n.spiSize ++ (data.drop n.spiSize ++ rest) := by
    rw [← append_assoc, take_append_drop]
    exact hbody
  have htake : (data.take n.spiSize).length = n.spiSize := by rw [length_take]; omega
  have hspiRead := slice_of_drop hsplit htake (by omega)
  have hdataRead : slice mem (8 + n.spiSize) (8 + data.length - (8 + n.spiSize)) = .ok (data.drop n.spiSize) :=
    slice_of_drop (drop_add_of_drop hsplit htake) (by rw [length_drop]; omega) (by omega)
  rw [ikev2ParseNotifyPayload, hplen, bind_ok, if_neg (by omega), hread, bind_ok]
  simp only [hf5, hf4, hf6]
  rw [if_neg (by omega), if_neg (by omega), hspiRead, bind_ok, hdataRead, bind_ok]
  rfl

/-- With the SPI in front of the data, the notify comes back. -/
theorem ikev2ParseNotifyPayload_content (hc : c.WF) (hfit : 8 + n.content.length < 2 ^ 16) (rest : Bytes) {rlen : ℕ}
    (hrlen : (notifyPayload c n n.content).length ≤ rlen) :
    ikev2ParseNotifyPayload (notifyPayload c n n.content ++ rest) rlen = .ok (some n) := by
  have hlen : (notifyPayload c n n.content).length = 8 + n.content.length := by
    rw [notifyPayload_eq hc]
    simp
    omega
  rw [hlen] at hrlen
  obtain ⟨msgType, protocolId, spi, data⟩ := n
  by_cases hspi : spi ≠ 0
  · have hcontent : content ⟨msgType, protocolId, spi, data⟩ = toBe 4 spi.toNat ++ data :=
      congrArg (· ++ data) (if_pos hspi)
    have hsize : Notify.spiSize ⟨msgType, protocolId, spi, data⟩ = 4 := if_pos hspi
    rw [hcontent] at hfit hrlen ⊢
    rw [ikev2ParseNotifyPayload_notifyPayload hc hfit (by rw [hsize]; simp) rest hrlen, hsize,
      take_left' (length_toBe _ _), drop_left' (length_toBe _ _), ofBe_toBe (by have := spi.isLt; omega),
      BitVec.ofNat_toNat, BitVec.setWidth_eq]
  · have hzero : spi = 0 := not_not.mp hspi
    subst hzero
    exact ikev2ParseNotifyPayload_notifyPayload hc hfit (Nat.zero_le _) rest hrlen

/-- With the data alone, it comes back exactly where there is no SPI. -/
theorem ikev2ParseNotifyPayload_data_iff (hc : c.WF) (hfit : 8 + n.data.length < 2 ^ 16) :
    ikev2ParseNotifyPayload (notifyPayload c n n.data) (notifyPayload c n n.data).length = .ok (some n) ↔
      n.spi = 0 := by
  have hlen : (notifyPayload c n n.data).length = 8 + n.data.length := by
    rw [notifyPayload_eq hc]
    simp
    omega
  constructor
  · intro h
    by_contra hspi
    have hdeclared : declaredLength (notifyPayload c n n.data) = 8 + n.data.length := by
      rw [notifyPayload_eq hc, declaredLength]
      exact fieldBe_toBe rfl (by omega)
    have hsize : notifySpiSize (notifyPayload c n n.data) = 4 := by
      have hspiSize : n.spiSize = 4 := if_pos hspi
      rw [notifyPayload_eq hc, hspiSize]
      rfl
    -- the first four bytes of the data are taken for the SPI
    have hfits : Fits (notifyPayload c n n.data) := ⟨by omega, by omega⟩
    rcases ikev2ParseNotifyPayload_cases hfits with ⟨-, hnone⟩ | ⟨hparses, r, hr, -, hlength⟩
    · rw [h] at hnone
      cases hnone
    · rw [h] at hr
      cases hr
      rw [notifyParses, decide_eq_true_eq, hsize, hlen] at hparses
      rw [notifyDataLength, hdeclared, hsize] at hlength
      omega
  · intro hspi
    have hcontent : n.content = n.data := by simp [content, hspi]
    have hback := ikev2ParseNotifyPayload_content (n := n) hc (by rw [hcontent]; exact hfit) [] (le_refl _)
    rwa [append_nil, hcontent] at hback

end

/-! ### DELETE -/

/-- The payload that `ikev2_payload_add_delete` adds to the chain. -/
def deletePayload (c : PayloadChain) (ds : List Delete) : Bytes :=
  (ikev2PayloadAddDelete c ds).data.drop c.data.length

section
variable {c : PayloadChain} {protocolId : Byte} {ds : List Delete}

theorem deletePayload_eq (hc : c.WF) (hne : ds ≠ []) (hike : protocolId ≠ protocolIke)
    (hproto : ∀ d ∈ ds, d.protocolId = protocolId) :
    ∃ len, len.length = 2 ∧ deletePayload c ds = [0, 0] ++ (len ++ ([protocolId, 4] ++ toBe 2 ds.length ++
      ds.flatMap fun d => toBe 4 d.spi.toNat)) := by
  obtain ⟨d, ds', rfl⟩ := exists_cons_of_ne_nil hne
  have hd : d.protocolId = protocolId := hproto d mem_cons_self
  obtain ⟨pre, hpre, hhdr⟩ := addHdr_holds hc payloadDelete 4
  have h1 := hhdr.setHdr 0 [protocolId] (by simp)
  have h2 := h1.setHdr 1 [4] (by rw [length_writeAt (by simp)]; simp)
  have h3 := h2.setHdr 2 (toBe 2 (d :: ds').length)
    (by rw [length_writeAt (by rw [length_writeAt (by simp)]; simp), length_writeAt (by simp)]; simp)
  have hbody : writeAt (writeAt (writeAt (replicate 4 0) 0 [protocolId]) 1 [4]) 2 (toBe 2 (d :: ds').length) =
      [protocolId, 4] ++ toBe 2 (d :: ds').length := by
    simp [writeAt, toBe]
  rw [hbody] at h3
  obtain ⟨len, hlen, hdata⟩ := (h3.carries.foldl (fun e => toBe 4 e.spi.toNat) (d :: ds')).data
  refine ⟨len, hlen, ?_⟩
  have hchain : ikev2PayloadAddDelete c (d :: ds') = (d :: ds').foldl
      (fun c e => ikev2PayloadAddData c (toBe 4 e.spi.toNat))
      ((((ikev2PayloadAddHdr c payloadDelete (4 + 4)).setHdr (4 + 0) [protocolId]).setHdr (4 + 1) [4]).setHdr (4 + 2)
        (toBe 2 (d :: ds').length)) := by
    simp only [ikev2PayloadAddDelete, head?_cons, hd, if_neg hike]
  rw [deletePayload, hchain, hdata, ← hpre, drop_left]

/-- The SPIs are read back in order. -/
theorem parseDeleteSpis_data {mem : Bytes} : ∀ (ds : List Delete) (i : ℕ) (rest : Bytes),
    mem.drop (8 + 4 * i) = (ds.flatMap fun d => toBe 4 d.spi.toNat) ++ rest → 8 + 4 * i ≤ mem.length →
    (∀ d ∈ ds, d.protocolId = protocolId) → parseDeleteSpis mem protocolId ds.length i = .ok ds
  | [], _, _, _, _, _ => rfl
  | d :: ds, i, rest, hmem, hle, hproto => by
    rw [flatMap_cons, append_assoc] at hmem
    have hspi := slice_of_drop hmem (length_toBe _ _) hle
    have hnext := drop_add_of_drop hmem (length_toBe _ _)
    have hroom := congrArg length hmem
    rw [length_drop, length_append, length_toBe] at hroom
    have ih := parseDeleteSpis_data ds (i + 1) rest (by rw [← hnext]; congr 1) (by omega)
      fun e he => hproto e (mem_cons_of_mem d he)
    rw [length_cons, parseDeleteSpis, hspi, bind_ok, ih, bind_ok, ofBe_toBe (by have := d.spi.isLt; omega),
      BitVec.ofNat_toNat, BitVec.setWidth_eq, ← hproto d mem_cons_self]
    rfl

theorem ikev2ParseDeletePayload_deletePayload (hc : c.WF) (hne : ds ≠ []) (hcount : ds.length ≤ 65535)
    (hike : protocolId ≠ protocolIke) (hproto : ∀ d ∈ ds, d.protocolId = protocolId) (rest : Bytes) {rlen : ℕ}
    (hrlen : (deletePayload c ds).length ≤ rlen) :
    ikev2ParseDeletePayload (deletePayload c ds ++ rest) rlen = .ok ds := by
  obtain ⟨len, hlen, hpayload⟩ := deletePayload_eq hc hne hike hproto
  have hspis : (ds.flatMap fun d => toBe 4 d.spi.toNat).length = 4 * ds.length := by
    rw [length_flatMap]
    simp [mul_comm]
  rw [hpayload] at hrlen ⊢
  generalize hmem : [0, 0] ++ (len ++ ([protocolId, 4] ++ toBe 2 ds.length ++
    ds.flatMap fun d => toBe 4 d.spi.toNat)) ++ rest = mem
  have hhdr : mem.drop 0 = ([0, 0] ++ (len ++ ([protocolId, 4] ++ toBe 2 ds.length))) ++
      ((ds.flatMap fun d => toBe 4 d.spi.toNat) ++ rest) := by
    rw [drop_zero, ← hmem]
    simp
  have hread := slice_of_drop hhdr (n := 8) (by simp [hlen]) (Nat.zero_le _)
  have hbody := drop_add_of_drop (p := 0) (k := 8) hhdr (by simp [hlen])
  obtain ⟨a, b, rfl⟩ := length_eq_two.mp hlen
  have hf4 : field8 ([0, 0] ++ ([a, b] ++ ([protocolId, 4] ++ toBe 2 ds.length))) 4 = protocolId := rfl
  have hf6 : fieldBe ([0, 0] ++ ([a, b] ++ ([protocolId, 4] ++ toBe 2 ds.length))) 6 2 = ds.length :=
    @fieldBe_toBe [0, 0, a, b, protocolId, 4] [] 6 2 ds.length rfl (by omega)
  simp only [length_append, length_cons, length_nil, length_toBe, hspis] at hrlen
  rw [ikev2ParseDeletePayload, if_neg (by omega), hread, bind_ok]
  simp only [hf4, hf6]
  rw [if_neg hike, if_neg (by omega)]
  refine parseDeleteSpis_data ds 0 rest hbody ?_ hproto
  rw [← hmem]
  simp

end

/-! ### Both -/

/-- A NOTIFY payload comes back if its SPI was handed to the writer in front of the data, and with the data alone
    exactly where there is no SPI; a DELETE payload always comes back. -/
theorem notifyDelete_readBack {c : PayloadChain} (hc : c.WF) :
    (∀ n : Notify, 8 + n.content.length < 2 ^ 16 →
      (∀ rest rlen, (notifyPayload c n n.content).length ≤ rlen →
        ikev2ParseNotifyPayload (notifyPayload c n n.content ++ rest) rlen = .ok (some n)) ∧
      (ikev2ParseNotifyPayload (notifyPayload c n n.data) (notifyPayload c n n.data).length = .ok (some n) ↔
        n.spi = 0)) ∧
    ∀ (protocolId : Byte) (ds : List Delete), ds ≠ [] → ds.length ≤ 65535 → protocolId ≠ protocolIke →
      (∀ d ∈ ds, d.protocolId = protocolId) → ∀ rest rlen, (deletePayload c ds).length ≤ rlen →
        ikev2ParseDeletePayload (deletePayload c ds ++ rest) rlen = .ok ds := by
  refine ⟨fun n hfit => ⟨?_, ?_⟩, ?_⟩
  · intro rest rlen hrlen
    exact ikev2ParseNotifyPayload_content hc hfit rest hrlen
  · refine ikev2ParseNotifyPayload_data_iff hc ?_
    rw [content, length_append] at hfit
    omega
  · intro protocolId ds hne hcount hike hproto rest rlen hrlen
    exact ikev2ParseDeletePayload_deletePayload hc hne hcount hike hproto rest hrlen

/-- The notify that announces the rekeying of a child SA, as the initiator writes it, and two deleted child SAs. -/
theorem notifyDelete_readBack_rekey :
    ikev2ParseNotifyPayload (notifyPayload {} ⟨notifyMsgRekeySa, protocolEsp, 7, []⟩ [0, 0, 0, 7]) 12 =
      .ok (some ⟨notifyMsgRekeySa, protocolEsp, 7, []⟩) ∧
    ikev2ParseDeletePayload (deletePayload {} [⟨protocolEsp, 1⟩, ⟨protocolEsp, 2⟩]) 16 =
      .ok [⟨protocolEsp, 1⟩, ⟨protocolEsp, 2⟩] := by
  obtain ⟨hnotify, hdelete⟩ := notifyDelete_readBack (c := {}) ⟨by decide, by decide⟩
  have hn := (hnotify ⟨notifyMsgRekeySa, protocolEsp, 7, []⟩ (by decide)).1 [] 12 (by decide)
  have hd := hdelete protocolEsp [⟨protocolEsp, 1⟩, ⟨protocolEsp, 2⟩] (by decide) (by decide)
    (by decide) (by decide)
    [] 16 (by decide)
  exact ⟨hn, hd⟩

/-- A notify with the SPI 7 and four bytes of data, which are read as the SPI. -/
theorem notify_spi_not_written :
    ikev2ParseNotifyPayload (notifyPayload {} ⟨notifyMsgRekeySa, protocolEsp, 7, [1, 2, 3, 4]⟩ [1, 2, 3, 4]) 12 =
      .ok (some ⟨notifyMsgRekeySa, protocolEsp, 0x01020304, []⟩) := by
  decide +kernel

end Vpp.Ikev2
