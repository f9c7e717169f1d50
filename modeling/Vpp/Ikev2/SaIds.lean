import Vpp.Ikev2.Tunnel

/-! The ids under which a child SA's two IPsec SAs are installed.

    An id packs the thread, the place of the IKE SA in the thread's pool and the place of the child SA;
    the top bit of the child's part tells the two ids between which a rekeyed remote SA alternates.

        31 30 | 29 ... 24 | 23 ... 12 | 11 | 10 ... 0
         1  r |  thread   |  IKE SA   | a  |  child

    An index too large for its part is reported in the log and packed all the same. -/

namespace Vpp.Ikev2
open Vpp.Schemes List

def ikev2FlipAlternateSaBit (id : BitVec 32) : BitVec 32 :=
  if 0x800 &&& id ≠ 0 then id &&& ~~~0x800 else id ||| 0x800

/-- The ids that belong to an installed child SA: the local one, the remote one and the one the remote
    SA has before or after a rekey. -/
def AddTunnelArgs.saIds (a : AddTunnelArgs) : List (BitVec 32) :=
  [a.localSaId, a.remoteSaId, ikev2FlipAlternateSaBit a.remoteSaId]

/-- The indices from which the ids of a child SA are made. -/
structure SaIndices where
  thread : BitVec 32
  sa : BitVec 32
  child : BitVec 32
  deriving DecidableEq

/-- The function asks the main thread to install a child SA. -/
def Requests (env : Env) (sa : Sa) (child : ChildSa) (i : SaIndices) (isRekey kex : Bool)
    (a : AddTunnelArgs) : Prop :=
  env.threadIndex = i.thread ∧ ∃ sa' child',
    ikev2CreateTunnelInterface env sa child i.sa i.child isRekey kex = .ok (sa', child', some a)

/-- The part of an id that the indices make up; an index too large for its place runs into the next one. -/
def SaIndices.word (i : SaIndices) : BitVec 32 := i.thread <<< 24 ||| i.sa <<< 12 ||| i.child

/-- No index of either place reaches the bit that tells remote ids from local ones, and the two differ in a bit
    below it that is not the alternate bit. -/
def Apart (i j : SaIndices) : Prop :=
  i.word.getLsbD 30 = false ∧ j.word.getLsbD 30 = false ∧
    ∃ k ∈ range 30, k ≠ 11 ∧ i.word.getLsbD k ≠ j.word.getLsbD k
deriving Decidable

/-! ### The bits of an id -/

section
variable (i : SaIndices) (k : ℕ)

theorem getLsbD_local :
    (ikev2MkLocalSaId i.sa i.child i.thread).getLsbD k = (decide (31 = k) || i.word.getLsbD k) := by
  change (BitVec.twoPow 32 31 ||| _ ||| _ ||| _).getLsbD k = _
  simp [SaIndices.word, Bool.or_assoc]

theorem getLsbD_remote : (ikev2MkRemoteSaId i.sa i.child i.thread).getLsbD k =
    (decide (31 = k) || decide (30 = k) || i.word.getLsbD k) := by
  change (BitVec.twoPow 32 31 ||| BitVec.twoPow 32 30 ||| _ ||| _ ||| _).getLsbD k = _
  simp [SaIndices.word, Bool.or_assoc]

end

/-- An id with the alternate bit as given. -/
def setAlternate (id : BitVec 32) (on : Bool) : BitVec 32 :=
  if on then id ||| BitVec.twoPow 32 11 else id &&& ~~~BitVec.twoPow 32 11

theorem getLsbD_setAlternate (id : BitVec 32) (on : Bool) (k : ℕ) :
    (setAlternate id on).getLsbD k = if 11 = k then on else id.getLsbD k := by
  have hk : k < 32 ∨ id.getLsbD k = false := (lt_or_ge k 32).imp_right (BitVec.getLsbD_of_ge _ _)
  cases on <;> simp only [setAlternate] <;> simp <;> grind

/-- Flipping the alternate bit exchanges the two ids of a remote SA. -/
theorem flip_setAlternate (id : BitVec 32) (on : Bool) :
    ikev2FlipAlternateSaBit (setAlternate id on) = setAlternate id !on := by
  have hflip (id : BitVec 32) : ikev2FlipAlternateSaBit id = setAlternate id !id.getLsbD 11 := by
    change (if BitVec.twoPow 32 11 &&& id ≠ 0 then _ else _) = _
    rw [BitVec.twoPow_and]
    cases id.getLsbD 11 <;> rfl
  rw [hflip]
  refine BitVec.eq_of_getLsbD_eq fun k _ => ?_
  simp only [getLsbD_setAlternate]
  split <;> rfl

/-- The ids that belong to a place. -/
def SaIndices.ids (i : SaIndices) : List (BitVec 32) :=
  let remote := ikev2MkRemoteSaId i.sa i.child i.thread
  [ikev2MkLocalSaId i.sa i.child i.thread, setAlternate remote false, setAlternate remote true]

/-- The ids of two places are different just when the places are apart. -/
theorem ids_nodup_iff (i j : SaIndices) : (i.ids ++ j.ids).Nodup ↔ Apart i j := by
  simp only [SaIndices.ids, cons_append, nil_append, nodup_cons, mem_cons, not_mem_nil, or_false, not_or, nodup_nil,
    and_true, not_false_eq_true]
  constructor
  · rintro ⟨⟨hi, hi', -⟩, ⟨-, -, hij, -⟩, -, ⟨hj, hj'⟩, -⟩
    have hclear (i : SaIndices) (h : ∀ on, ikev2MkLocalSaId i.sa i.child i.thread ≠
        setAlternate (ikev2MkRemoteSaId i.sa i.child i.thread) on) : i.word.getLsbD 30 = false := by
      by_contra h30
      refine h ((ikev2MkLocalSaId i.sa i.child i.thread).getLsbD 11) (BitVec.eq_of_getLsbD_eq fun k _ => ?_)
      simp only [getLsbD_setAlternate, getLsbD_remote, getLsbD_local]
      grind
    refine ⟨hclear i (by simp [hi, hi']), hclear j (by simp [hj, hj']), ?_⟩
    by_contra! hall
    refine hij (BitVec.eq_of_getLsbD_eq fun k hk => ?_)
    simp only [getLsbD_setAlternate, getLsbD_remote]
    by_cases hlow : k ∈ range 30 ∧ k ≠ 11
    · rw [hall k hlow.1 hlow.2]
    · have : 11 = k ∨ 31 = k ∨ 30 = k := by simp at hlow; omega
      rcases this with rfl | rfl | rfl <;> simp
  · rintro ⟨hi, hj, k, hk, hk11, hne⟩
    have hk' : ¬ 11 = k ∧ ¬ 31 = k ∧ ¬ 30 = k := by simp at hk; omega
    have hbit {x y : BitVec 32} (n : ℕ) (h : x.getLsbD n ≠ y.getLsbD n) : x ≠ y := fun e => h (e ▸ rfl)
    -- the alternate bit, the bit of remote ids or the bit that differs
    refine ⟨⟨hbit 30 ?_, hbit 30 ?_, hbit k ?_, hbit 30 ?_, hbit 30 ?_⟩,
      ⟨hbit 11 ?_, hbit 30 ?_, hbit k ?_, hbit 11 ?_⟩, ⟨hbit 30 ?_, hbit 11 ?_, hbit k ?_⟩,
      ⟨hbit 30 ?_, hbit 30 ?_⟩,
      hbit 11 ?_⟩ <;> simp only [getLsbD_local, getLsbD_setAlternate, getLsbD_remote, hi, hj, hk'] <;> simp [hne]

/-! ### The ids of a request -/

section
variable {env : Env} {sa : Sa} {child : ChildSa} {i : SaIndices} {isRekey kex : Bool} {a : AddTunnelArgs}

theorem rekeyRemoteSaId_new (sa : Sa) (id : BitVec 32) (isRekey : Bool) :
    (rekeyRemoteSaId sa id isRekey).2.1 = id ∨ (rekeyRemoteSaId sa id isRekey).2.1 = id ||| 0x800 := by
  unfold rekeyRemoteSaId
  split_ifs
  exacts [.inl rfl, .inr rfl, .inl rfl]

/-- Whatever is negotiated, the ids are made of the indices, and the remote one of the alternate bit. -/
theorem Requests.ids (h : Requests env sa child i isRekey kex a) :
    a.localSaId = ikev2MkLocalSaId i.sa i.child i.thread ∧
      (a.remoteSaId = ikev2MkRemoteSaId i.sa i.child i.thread ∨
        a.remoteSaId = ikev2MkRemoteSaId i.sa i.child i.thread ||| 0x800) := by
  obtain ⟨hthread, sa', child', hcreate⟩ := h
  suffices hids : Ensures (ikev2CreateTunnelInterface env sa child i.sa i.child isRekey kex) fun r =>
      ∀ a, r.2.2 = some a → a.localSaId = ikev2MkLocalSaId i.sa i.child env.threadIndex ∧
        a.remoteSaId = (rekeyRemoteSaId sa
          (ikev2MkRemoteSaId i.sa i.child env.threadIndex) isRekey).2.1 by
    obtain ⟨hlocal, hremote⟩ := hids _ hcreate a rfl
    rw [hthread] at hlocal hremote
    exact ⟨hlocal, hremote ▸ rekeyRemoteSaId_new _ _ _⟩
  unfold ikev2CreateTunnelInterface
  split
  · exact .pure fun _ h => nomatch h
  · refine .bind_any fun ip => ?_
    dsimp only
    split
    · exact .pure fun _ h => nomatch h
    · refine .bind_any fun child => .pure fun a ha => ?_
      cases ha
      unfold AddTunnelArgs.setKeys
      split_ifs <;> exact ⟨rfl, rfl⟩

/-- Whether or not a rekey has set the alternate bit, the ids of a request are those of its place. -/
theorem Requests.saIds_perm (h : Requests env sa child i isRekey kex a) : a.saIds.Perm i.ids := by
  obtain ⟨hlocal, hremote⟩ := h.ids
  obtain ⟨on, hr⟩ : ∃ on, a.remoteSaId = setAlternate (ikev2MkRemoteSaId i.sa i.child i.thread) on := by
    rcases hremote with hr | hr
    · refine ⟨(ikev2MkRemoteSaId i.sa i.child i.thread).getLsbD 11,
        hr.trans (BitVec.eq_of_getLsbD_eq fun k _ => ?_)⟩
      rw [getLsbD_setAlternate]
      split
      · subst k
        rfl
      · rfl
    · exact ⟨true, hr⟩
  rw [AddTunnelArgs.saIds, hlocal, hr, flip_setAlternate]
  cases on with
  | false => exact List.Perm.refl _
  | true => exact (List.Perm.swap _ _ _).cons _

end

/-- The ids of two child SAs, those that a rekey may still give to their remote SAs among them, are different just
    when their places are apart. -/
theorem saIds_nodup_iff {env₁ env₂ : Env} {sa₁ sa₂ : Sa} {child₁ child₂ : ChildSa} {i₁ i₂ : SaIndices}
    {rekey₁ rekey₂ kex₁ kex₂ : Bool} {a₁ a₂ : AddTunnelArgs}
    (h₁ : Requests env₁ sa₁ child₁ i₁ rekey₁ kex₁ a₁)
    (h₂ : Requests env₂ sa₂ child₂ i₂ rekey₂ kex₂ a₂) :
    (a₁.saIds ++ a₂.saIds).Nodup ↔ Apart i₁ i₂ := by
  rw [(h₁.saIds_perm.append h₂.saIds_perm).nodup_iff]
  exact ids_nodup_iff i₁ i₂

/-! ### A gateway with many peers -/

/-- An SA with a negotiated PRF, and a child SA with one ESP proposal. -/
def idSa : Sa := { rProposals := [⟨1, protocolIke, 0, [⟨transformTypePrf, 2, []⟩]⟩] }
def idChild : ChildSa :=
  let esp : List SaProposal :=
    [⟨1, protocolEsp, 7, [⟨transformTypeEncr, encrTypeAesGcm16, [0x80, 14, 0, 128]⟩]⟩]
  { iProposals := esp, rProposals := esp }

/-- Two child SAs of one SA, the first of them rekeyed. -/
theorem saIds_nodup_siblings : ∃ a₁ a₂, (a₁.saIds ++ a₂.saIds).Nodup ∧
    Requests Env.zero idSa idChild ⟨0, 0, 0⟩ true false a₁ ∧
    Requests Env.zero idSa idChild ⟨0, 0, 1⟩ false false a₂ :=
  have h₁ : Requests Env.zero idSa idChild ⟨0, 0, 0⟩ true false _ := ⟨rfl, _, _, rfl⟩
  have h₂ : Requests Env.zero idSa idChild ⟨0, 0, 1⟩ false false _ := ⟨rfl, _, _, rfl⟩
  ⟨_, _, (saIds_nodup_iff h₁ h₂).mpr (by decide), h₁, h₂⟩

/-- The SA at place 4096 of one thread and the SA at place 0 of the next one: their child SAs get the
    same local id. -/
theorem saIds_clash : ∃ a₁ a₂, a₁.localSaId = a₂.localSaId ∧
    Requests Env.zero idSa idChild ⟨0, 4096, 0⟩ false false a₁ ∧
    Requests { Env.zero with threadIndex := 1 } idSa idChild ⟨1, 0, 0⟩ false false a₂ :=
  ⟨_, _, rfl, ⟨rfl, _, _, rfl⟩, rfl, _, _, rfl⟩

end Vpp.Ikev2
