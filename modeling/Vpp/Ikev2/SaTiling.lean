import Vpp.Ikev2.ParserSafety

/-! How the proposal loop of `ikev2_parse_sa_payload` moves through the payload.

    Two cursors walk over the proposals. The outer one advances by the length that a proposal declares, the inner one
    over the transforms, and neither looks at the other:

        proposal_len    |--------------|-----------|--- ..      outer cursor
        header, SPI     [hdr|spi]
        transforms               [t][t][t][t]                   may reach behind proposal_len

    The loop ends unless it goes on behind a proposal of length zero, after one round for every eight bytes if it goes
    on behind no proposal shorter than a header; and a list that is returned tiles the payload if each proposal
    declares at least its header, its SPI and its transforms. -/

namespace Vpp.Ikev2
open Vpp.Schemes List Bool

/-! ### The fields of a proposal -/

/-- The fields of the `ike_sa_proposal_data_t` at `ikep->payload[proposalPtr]`. -/
def proposalMore (mem : Bytes) (proposalPtr : ℕ) : Byte := field8 mem (4 + proposalPtr)
def proposalLen (mem : Bytes) (proposalPtr : ℕ) : ℕ := fieldBe mem (4 + proposalPtr + 2) 2
def proposalProtocol (mem : Bytes) (proposalPtr : ℕ) : Byte := field8 mem (4 + proposalPtr + 5)
def proposalSpiSize (mem : Bytes) (proposalPtr : ℕ) : ℕ := (field8 mem (4 + proposalPtr + 6)).toNat
def proposalTransforms (mem : Bytes) (proposalPtr : ℕ) : ℕ := (field8 mem (4 + proposalPtr + 7)).toNat

/-- The checks before `vec_add2 (v, proposal, 1)`. -/
def proposalAdded (mem : Bytes) (rlen proposalPtr : ℕ) : Bool :=
  let protocolId := proposalProtocol mem proposalPtr
  let spiSize := proposalSpiSize mem proposalPtr
  decide (proposalPtr + 8 ≤ rlen) &&
  !decide (protocolId = protocolIke ∧ spiSize ≠ 0 ∧ spiSize ≠ 8) &&
  !decide (protocolId = protocolEsp ∧ spiSize ≠ 4) &&
  decide (proposalPtr + 8 + spiSize ≤ rlen)

/-- The bytes that `n` transforms declare, one behind the other. -/
def transformsLen (mem : Bytes) : ℕ → ℕ → ℕ
  | 0, _ => 0
  | n + 1, transformPtr =>
    let tlen := fieldBe mem (4 + transformPtr + 2) 2
    tlen + transformsLen mem n (transformPtr + tlen)

/-- The proposal is at least as long as its header, its SPI and its transforms. -/
def ProposalContained (mem : Bytes) (proposalPtr : ℕ) : Prop :=
  8 + proposalSpiSize mem proposalPtr +
    transformsLen mem (proposalTransforms mem proposalPtr) (proposalPtr + 8 + proposalSpiSize mem proposalPtr) ≤
      proposalLen mem proposalPtr

/-- The bytes of the transforms that were read. -/
def transformsSize (ts : List SaTransform) : ℕ := (ts.map fun t => 8 + t.attrs.length).sum

section
variable {mem : Bytes} {rlen bodyLen proposalPtr : ℕ}

theorem parseTransforms_size : ∀ {n transformPtr : ℕ} {ts : List SaTransform},
    parseTransforms mem rlen n transformPtr = .ok (some ts) → transformsSize ts = transformsLen mem n transformPtr
  | 0, _, ts, h => by
    cases h
    rfl
  | n + 1, transformPtr, ts, h => by
    rw [parseTransforms] at h
    split at h
    · cases h
    obtain ⟨tr, htr, h⟩ := bind_eq_ok.mp h
    obtain ⟨-, rfl⟩ := slice_eq_ok.mp htr
    have htlen : fieldBe ((mem.drop (4 + transformPtr)).take 8) 2 2 = fieldBe mem (4 + transformPtr + 2) 2 :=
      fieldBe_take_drop (by omega)
    simp only [htlen] at h
    split at h
    · cases h
    split at h
    · cases h
    next hlow _ =>
    obtain ⟨attrs, hattrs, h⟩ := bind_eq_ok.mp h
    obtain ⟨hroom, rfl⟩ := slice_eq_ok.mp hattrs
    obtain ⟨rest, hrest, h⟩ := bind_eq_ok.mp h
    rcases rest with _ | ts'
    · cases h
    · cases h
      have ih := parseTransforms_size hrest
      rw [transformsLen, transformsSize, map_cons, sum_cons, ← transformsSize, ih]
      simp only [length_take, length_drop]
      omega

/-- What a proposal that was read looks like. -/
theorem parseProposal_some {sap : Bytes} {p : SaProposal}
    (h : parseProposal mem rlen proposalPtr = .ok (some (sap, p))) :
    proposalPtr + 8 ≤ rlen ∧ fieldBe sap 2 2 = proposalLen mem proposalPtr ∧
      field8 sap 0 = proposalMore mem proposalPtr ∧ proposalAdded mem rlen proposalPtr = true ∧
      transformsSize p.transforms = transformsLen mem (proposalTransforms mem proposalPtr)
        (proposalPtr + 8 + proposalSpiSize mem proposalPtr) := by
  rw [parseProposal] at h
  split at h
  · cases h
  next hroom =>
  obtain ⟨sap', hsap, h⟩ := bind_eq_ok.mp h
  obtain ⟨-, rfl⟩ := slice_eq_ok.mp hsap
  have hfield : ∀ k, k < 8 → field8 ((mem.drop (4 + proposalPtr)).take 8) k = field8 mem (4 + proposalPtr + k) :=
    fun k hk => field8_take_drop hk
  have hlen : fieldBe ((mem.drop (4 + proposalPtr)).take 8) 2 2 = proposalLen mem proposalPtr :=
    fieldBe_take_drop (by omega)
  simp only [hfield 5 (by omega), hfield 6 (by omega), hfield 7 (by omega)] at h
  split at h
  · cases h
  next hike =>
  split at h
  · cases h
  next hesp =>
  split at h
  · cases h
  next hspi =>
  have hadded : proposalAdded mem rlen proposalPtr = true := by
    simp only [proposalAdded, and_eq_true, not_eq_true', decide_eq_true_eq, decide_eq_false_iff_not]
    exact ⟨⟨⟨by omega, hike⟩, hesp⟩, le_of_not_gt hspi⟩
  obtain ⟨spi, -, h⟩ := bind_eq_ok.mp h
  obtain ⟨found, hts, h⟩ := bind_eq_ok.mp h
  rcases found with _ | ts
  · cases h
  · cases h
    exact ⟨by omega, hlen, hfield 0 (by omega), hadded, parseTransforms_size hts⟩

/-- A proposal is read in a bounded number of steps. -/
theorem parseTransforms_ne_divergence (mem : Bytes) (rlen : ℕ) :
    ∀ n transformPtr, parseTransforms mem rlen n transformPtr ≠ .error .divergence
  | 0, _ => by simp [parseTransforms, pure, Except.pure]
  | n + 1, transformPtr => by
    rw [parseTransforms]
    split
    · simp [pure, Except.pure]
    refine bind_ne_error (slice_ne_divergence _ _ _) fun tr => ?_
    dsimp only
    split
    · simp [pure, Except.pure]
    split
    · simp [pure, Except.pure]
    refine bind_ne_error (slice_ne_divergence _ _ _) fun attrs => ?_
    refine bind_ne_error (parseTransforms_ne_divergence mem rlen n _) fun found => ?_
    cases found <;> simp [pure, Except.pure]

theorem parseProposal_ne_divergence (mem : Bytes) (rlen proposalPtr : ℕ) :
    parseProposal mem rlen proposalPtr ≠ .error .divergence := by
  rw [parseProposal]
  split
  · simp [pure, Except.pure]
  refine bind_ne_error (slice_ne_divergence _ _ _) fun sap => ?_
  dsimp only
  split
  · simp [pure, Except.pure]
  split
  · simp [pure, Except.pure]
  split
  · simp [pure, Except.pure]
  refine bind_ne_error (slice_ne_divergence _ _ _) fun spi => ?_
  refine bind_ne_error (parseTransforms_ne_divergence mem rlen _ _) fun found => ?_
  cases found <;> simp [pure, Except.pure]

end

/-! ### The loop -/

section
variable (mem : Bytes) (rlen bodyLen : ℕ)

/-- Behind the proposal at the cursor the loop looks for another one. -/
def GoesOn (proposalPtr : ℕ) : Prop :=
  (∃ sap p, parseProposal mem rlen proposalPtr = .ok (some (sap, p))) ∧
    proposalPtr + proposalLen mem proposalPtr < bodyLen ∧ proposalMore mem proposalPtr = 2

/-- The cursor positions at which the loop looks for a proposal, from a given one on. -/
inductive Reached : ℕ → ℕ → Prop
  | here (proposalPtr : ℕ) : Reached proposalPtr proposalPtr
  | next {proposalPtr q : ℕ} (hgo : GoesOn mem rlen bodyLen proposalPtr)
      (h : Reached (proposalPtr + proposalLen mem proposalPtr) q) : Reached proposalPtr q

/-- Wherever the loop goes on, the proposal declares at least so many bytes. -/
def Advances (n proposalPtr : ℕ) : Prop :=
  ∀ q, Reached mem rlen bodyLen proposalPtr q → GoesOn mem rlen bodyLen q → n ≤ proposalLen mem q

/-- The number of proposals that were added to the vector within the given number of rounds. -/
def proposalsAdded : ℕ → ℕ → ℕ
  | 0, _ => 0
  | rounds + 1, proposalPtr =>
    (if proposalAdded mem rlen proposalPtr then 1 else 0) +
      match parseProposal mem rlen proposalPtr with
      | .ok (some _) =>
        let next := proposalPtr + proposalLen mem proposalPtr
        if next < bodyLen ∧ proposalMore mem proposalPtr = 2 then proposalsAdded rounds next else 0
      | _ => 0

end

/-- The proposals stand one behind the other from the cursor to the end, each with its transforms inside. -/
def Tiled (mem : Bytes) (rlen stop : ℕ) : ℕ → List SaProposal → Prop
  | proposalPtr, [] => proposalPtr = stop
  | proposalPtr, p :: ps =>
    (∃ sap, parseProposal mem rlen proposalPtr = .ok (some (sap, p))) ∧
    8 + proposalSpiSize mem proposalPtr + transformsSize p.transforms ≤ proposalLen mem proposalPtr ∧
    Tiled mem rlen stop (proposalPtr + proposalLen mem proposalPtr) ps

section
variable {mem : Bytes} {rlen bodyLen : ℕ} {proposalPtr : ℕ}

theorem GoesOn.room (h : GoesOn mem rlen bodyLen proposalPtr) : proposalPtr + 8 ≤ rlen ∧ 12 ≤ mem.length := by
  obtain ⟨⟨sap, p, hread⟩, -⟩ := h
  rw [parseProposal] at hread
  split at hread
  · cases hread
  · obtain ⟨_, hsap, -⟩ := bind_eq_ok.mp hread
    have hin := (slice_eq_ok.mp hsap).1
    omega

theorem Advances.step {n : ℕ} (h : Advances mem rlen bodyLen n proposalPtr)
    (hgo : GoesOn mem rlen bodyLen proposalPtr) :
    n ≤ proposalLen mem proposalPtr ∧ Advances mem rlen bodyLen n (proposalPtr + proposalLen mem proposalPtr) :=
  ⟨h proposalPtr (.here _) hgo, fun q hq => h q (.next hgo hq)⟩

/-- A round of the loop that reads a proposal. -/
theorem parseProposals_read {sap : Bytes} {p : SaProposal} (fuel : ℕ) (v : List SaProposal)
    (h : parseProposal mem rlen proposalPtr = .ok (some (sap, p))) :
    parseProposals mem rlen bodyLen (fuel + 1) proposalPtr v =
      if proposalPtr + proposalLen mem proposalPtr < bodyLen ∧ proposalMore mem proposalPtr = 2 then
        parseProposals mem rlen bodyLen fuel (proposalPtr + proposalLen mem proposalPtr) (v ++ [p])
      else if proposalPtr + proposalLen mem proposalPtr ≠ bodyLen ∨ proposalMore mem proposalPtr ≠ 0 then .ok []
      else .ok (v ++ [p]) := by
  obtain ⟨-, hlen, hmore, -⟩ := parseProposal_some h
  rw [parseProposals, h, bind_ok]
  dsimp only
  rw [hlen, hmore]
  rfl

/-- Without a proposal of length zero the loop ends. -/
theorem parseProposals_ne_divergence : ∀ (fuel proposalPtr : ℕ) (v : List SaProposal),
    Advances mem rlen bodyLen 1 proposalPtr → 0 < fuel → rlen < proposalPtr + fuel →
    parseProposals mem rlen bodyLen fuel proposalPtr v ≠ .error .divergence
  | 0, _, _, _, hfuel, _ => absurd hfuel (lt_irrefl 0)
  | fuel + 1, proposalPtr, v, hadv, _, hroom => by
    cases hread : parseProposal mem rlen proposalPtr with
    | error f =>
      -- the parser of one proposal has no loop that can fail to end
      have hf := parseProposal_ne_divergence mem rlen proposalPtr
      rw [parseProposals, hread]
      intro h
      cases h
      exact hf hread
    | ok r =>
      rcases r with _ | ⟨sap, p⟩
      · rw [parseProposals, hread, bind_ok]
        intro h
        cases h
      · rw [parseProposals_read fuel v hread]
        split
        · next hgo =>
          have hgo : GoesOn mem rlen bodyLen proposalPtr := ⟨⟨sap, p, hread⟩, hgo⟩
          have hin := hgo.room
          obtain ⟨hlen, hadv⟩ := hadv.step hgo
          exact parseProposals_ne_divergence fuel _ _ hadv (by omega) (by omega)
        · split
          · intro h
            cases h
          · intro h
            cases h

/-- Where the cursor comes to a proposal of length zero it stays there. -/
theorem parseProposals_divergence {q : ℕ} (hreach : Reached mem rlen bodyLen proposalPtr q)
    (hgo : GoesOn mem rlen bodyLen q) (hzero : proposalLen mem q = 0) (fuel : ℕ) (v : List SaProposal) :
    parseProposals mem rlen bodyLen fuel proposalPtr v = .error .divergence := by
  induction fuel generalizing proposalPtr v with
  | zero => rfl
  | succ fuel ih =>
    -- the cursor goes on to the next position, or is there
    cases hreach with
    | here =>
      obtain ⟨⟨sap, p, hread⟩, hnext⟩ := id hgo
      rw [parseProposals_read fuel v hread, if_pos hnext, hzero]
      exact ih (.here _) _
    | next hstep hreach =>
      obtain ⟨⟨sap, p, hread⟩, hnext⟩ := hstep
      rw [parseProposals_read fuel v hread, if_pos hnext]
      exact ih hreach _

theorem proposalsAdded_of_goesOn (hgo : GoesOn mem rlen bodyLen proposalPtr) (rounds : ℕ) :
    proposalsAdded mem rlen bodyLen (rounds + 1) proposalPtr = (if proposalAdded mem rlen proposalPtr then 1 else 0) +
      proposalsAdded mem rlen bodyLen rounds (proposalPtr + proposalLen mem proposalPtr) := by
  obtain ⟨⟨sap, p, hread⟩, hnext⟩ := hgo
  rw [proposalsAdded, hread]
  exact congrArg _ (if_pos hnext)

theorem proposalsAdded_of_stops (hgo : ¬ GoesOn mem rlen bodyLen proposalPtr) (rounds : ℕ) :
    proposalsAdded mem rlen bodyLen (rounds + 1) proposalPtr = if proposalAdded mem rlen proposalPtr then 1 else 0 := by
  rw [proposalsAdded]
  generalize (if proposalAdded mem rlen proposalPtr then 1 else 0) = added
  split
  · next r hread => exact congrArg _ (if_neg fun hnext => hgo ⟨⟨r.1, r.2, hread⟩, hnext⟩)
  · rfl

/-- No more are added in further rounds. -/
theorem proposalsAdded_le :
    ∀ (rounds fuel proposalPtr : ℕ), Advances mem rlen bodyLen 1 proposalPtr → 0 < fuel →
    rlen < proposalPtr + fuel →
    proposalsAdded mem rlen bodyLen rounds proposalPtr ≤ proposalsAdded mem rlen bodyLen fuel proposalPtr
  | 0, _, _, _, _, _ => Nat.zero_le _
  | rounds + 1, fuel + 1, proposalPtr, hadv, _, hroom => by
    by_cases hgo : GoesOn mem rlen bodyLen proposalPtr
    · have hin := hgo.room
      obtain ⟨hlen, hadv⟩ := hadv.step hgo
      rw [proposalsAdded_of_goesOn hgo, proposalsAdded_of_goesOn hgo]
      exact Nat.add_le_add_left (proposalsAdded_le rounds fuel _ hadv (by omega) (by omega)) _
    · rw [proposalsAdded_of_stops hgo, proposalsAdded_of_stops hgo]

/-- One proposal for every eight bytes behind the cursor, if each is as long as its header. -/
theorem eight_mul_proposalsAdded_le : ∀ rounds proposalPtr, Advances mem rlen bodyLen 8 proposalPtr →
    8 * proposalsAdded mem rlen bodyLen rounds proposalPtr ≤ rlen - proposalPtr
  | 0, _, _ => Nat.zero_le _
  | rounds + 1, proposalPtr, hadv => by
    by_cases hgo : GoesOn mem rlen bodyLen proposalPtr
    · have hin := hgo.room
      obtain ⟨hlen, hadv⟩ := hadv.step hgo
      have ih := eight_mul_proposalsAdded_le rounds _ hadv
      rw [proposalsAdded_of_goesOn hgo]
      split <;> omega
    · rw [proposalsAdded_of_stops hgo]
      split
      · next hadded =>
        simp only [proposalAdded, and_eq_true, decide_eq_true_eq] at hadded
        omega
      · omega

/-- A list that is returned holds every proposal that was added, and tiles what is left if each of them is long
    enough. -/
theorem parseProposals_tiled : ∀ (fuel proposalPtr : ℕ) (v w : List SaProposal),
    parseProposals mem rlen bodyLen fuel proposalPtr v = .ok w → w ≠ [] →
    (∀ q, Reached mem rlen bodyLen proposalPtr q → ProposalContained mem q) →
    ∃ ps, w = v ++ ps ∧ proposalsAdded mem rlen bodyLen fuel proposalPtr = ps.length ∧ ps ≠ [] ∧
      Tiled mem rlen bodyLen proposalPtr ps
  | 0, _, _, _, h, _, _ => by cases h
  | fuel + 1, proposalPtr, v, w, h, hne, hcont => by
    cases hread : parseProposal mem rlen proposalPtr with
    | error f =>
      rw [parseProposals, hread] at h
      cases h
    | ok r =>
      rcases r with _ | ⟨sap, p⟩
      · rw [parseProposals, hread, bind_ok] at h
        cases h
        exact absurd rfl hne
      · have hinside : 8 + proposalSpiSize mem proposalPtr + transformsSize p.transforms ≤
            proposalLen mem proposalPtr := by
          rw [(parseProposal_some hread).2.2.2.2]
          exact hcont proposalPtr (.here _)
        have hadded := (parseProposal_some hread).2.2.2.1
        rw [parseProposals_read fuel v hread] at h
        split at h
        · next hnext =>
          have hgo : GoesOn mem rlen bodyLen proposalPtr := ⟨⟨sap, p, hread⟩, hnext⟩
          obtain ⟨ps, hw, hcount, -, htiled⟩ :=
            parseProposals_tiled fuel _ _ w h hne fun q hq => hcont q (.next hgo hq)
          refine ⟨p :: ps, by rw [hw, append_assoc]; rfl, ?_, cons_ne_nil _ _, ⟨sap, hread⟩, hinside, htiled⟩
          rw [proposalsAdded_of_goesOn hgo, if_pos hadded, hcount, length_cons, add_comm]
        · next hnext =>
          have hgo : ¬ GoesOn mem rlen bodyLen proposalPtr := fun hgo => hnext hgo.2
          split at h
          · cases h
            exact absurd rfl hne
          · next hend =>
            cases h
            refine ⟨[p], rfl, by rw [proposalsAdded_of_stops hgo, if_pos hadded]; rfl, cons_ne_nil _ _,
              ⟨sap, hread⟩, hinside, ?_⟩
            by_contra hstop
            exact hend (Or.inl hstop)

/-- And each of them is, if the list tiles it. -/
theorem Tiled.contained {q : ℕ} (hreach : Reached mem rlen bodyLen proposalPtr q) : ∀ {ps : List SaProposal},
    ps ≠ [] → Tiled mem rlen bodyLen proposalPtr ps → ProposalContained mem q := by
  induction hreach with
  | here c =>
    rintro (_ | ⟨p, ps⟩) hne htiled
    · exact absurd rfl hne
    · obtain ⟨⟨sap, hread⟩, hinside, -⟩ := htiled
      rwa [(parseProposal_some hread).2.2.2.2] at hinside
  | next hgo _ ih =>
    rintro (_ | ⟨p, ps⟩) hne htiled
    · exact absurd rfl hne
    · refine ih ?_ htiled.2.2
      rintro rfl
      exact absurd htiled.2.2 hgo.2.1.ne

end

/-! ### The payload -/

/-- `plen - sizeof (*ikep)`, in 64 bits. -/
def saBodyLen (mem : Bytes) : ℕ := (declaredLength mem + (2 ^ 64 - 4)) % 2 ^ 64

/-- The cursor stays below `rlen` and one proposal. -/
theorem Tiled.stop_le {mem : Bytes} {rlen stop : ℕ} : ∀ {proposalPtr : ℕ} {ps : List SaProposal}, ps ≠ [] →
    Tiled mem rlen stop proposalPtr ps → stop ≤ rlen + 2 ^ 16
  | _, [], hne, _ => absurd rfl hne
  | proposalPtr, [p], _, ⟨⟨sap, hread⟩, _, hstop⟩ => by
    have hin := (parseProposal_some hread).1
    have hlen := fieldBe_lt mem (4 + proposalPtr + 2) 2
    rw [Tiled, proposalLen] at hstop
    omega
  | _, _ :: _ :: _, _, ⟨_, _, htail⟩ => Tiled.stop_le (cons_ne_nil _ _) htail

section
variable {mem : Bytes} {rlen : ℕ}

/-- The parser is the loop, where the headers of the payload and of a proposal are there to be read. -/
theorem ikev2ParseSaPayload_eq (hmem : 4 ≤ mem.length) (hrlen : 4 ≤ rlen) :
    ikev2ParseSaPayload mem rlen = parseProposals mem (rlen - 4) (saBodyLen mem) rlen 0 [] := by
  rw [ikev2ParseSaPayload, payloadLength_eq hmem, bind_ok, if_neg (by omega)]
  rfl

/-- The parser ends just when it does not come to a proposal of length zero. -/
theorem ikev2ParseSaPayload_ends_iff : ikev2ParseSaPayload mem rlen ≠ .error .divergence ↔
    Advances mem (rlen - 4) (saBodyLen mem) 1 0 := by
  constructor
  · intro hends q hreach hgo
    by_contra hzero
    have hroom := hgo.room
    refine hends ?_
    rw [ikev2ParseSaPayload_eq (by omega) (by omega)]
    exact parseProposals_divergence hreach hgo (by omega) rlen []
  · intro hadv
    by_cases hmem : 4 ≤ mem.length
    · by_cases hrlen : 4 ≤ rlen
      · rw [ikev2ParseSaPayload_eq hmem hrlen]
        exact parseProposals_ne_divergence _ _ _ hadv (by omega) (by omega)
      · rw [ikev2ParseSaPayload, payloadLength_eq hmem, bind_ok, if_pos (by omega)]
        simp [pure, Except.pure]
    · have hslice : slice mem 2 2 = .error .outOfBounds := if_neg (by omega)
      rw [ikev2ParseSaPayload, payloadLength, hslice]
      intro h
      cases h

/-- A list that is returned holds all that was added and tiles the payload, just when each proposal is long enough. -/
theorem ikev2ParseSaPayload_tiled_iff (hlt : rlen < 2 ^ 32) {v : List SaProposal}
    (hv : ikev2ParseSaPayload mem rlen = .ok v) (hne : v ≠ []) :
    (proposalsAdded mem (rlen - 4) (saBodyLen mem) rlen 0 = v.length ∧ 4 ≤ declaredLength mem ∧
        Tiled mem (rlen - 4) (declaredLength mem - 4) 0 v) ↔
      ∀ q, Reached mem (rlen - 4) (saBodyLen mem) 0 q → ProposalContained mem q := by
  have hdecl := fieldBe_lt mem 2 2
  have hbody (hfour : 4 ≤ declaredLength mem) : saBodyLen mem = declaredLength mem - 4 := by
    unfold saBodyLen
    unfold declaredLength at hfour ⊢
    omega
  constructor
  · rintro ⟨-, hfour, htiled⟩ q hreach
    rw [← hbody hfour] at htiled
    exact htiled.contained hreach hne
  · intro hcont
    obtain ⟨plen, hplen, hloop⟩ := bind_eq_ok.mp hv
    have hmem : 4 ≤ mem.length := by
      obtain ⟨bs, hbs, -⟩ := bind_eq_ok.mp hplen
      exact (slice_eq_ok.mp hbs).1
    have hrlen : 4 ≤ rlen := by
      by_contra hlt
      rw [if_pos (by omega)] at hloop
      cases hloop
      exact hne rfl
    rw [ikev2ParseSaPayload_eq hmem hrlen] at hv
    obtain ⟨ps, rfl, hcount, hne', htiled⟩ := parseProposals_tiled _ _ _ v hv hne hcont
    have hstop := htiled.stop_le hne'
    have hfour : 4 ≤ declaredLength mem := by
      unfold saBodyLen at hstop
      omega
    rw [hbody hfour] at htiled
    exact ⟨hcount, hfour, htiled⟩

end

/-- An SA payload that declares `plen` bytes, with one IKE proposal without SPI that declares `len` bytes, and one
    transform behind the proposal's header. -/
def oneProposalPayload (more : Byte) (plen len : ℕ) : Bytes :=
  [0, 0] ++ toBe 2 plen ++ ([more, 0] ++ toBe 2 len ++ [1, protocolIke, 0, 1]) ++ [0, 0, 0, 8, 1, 0, 0, 12]

-- a proposal that is too short for its transform does no harm where the list is not returned
example : ikev2ParseSaPayload (oneProposalPayload 0 20 15) 20 = .ok [] ∧
    ikev2ParseSaPayload (oneProposalPayload 0 20 16) 20 = .ok [⟨1, protocolIke, 0, [⟨1, 12, []⟩]⟩] := by
  decide +kernel

end Vpp.Ikev2
