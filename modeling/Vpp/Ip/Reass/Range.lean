import Mathlib

/-! The ranges of a datagram that a reassembly context holds.

    A fragment is received with its first and last octet; while it is kept, a range of it counts, the
    part that no other kept fragment stands for. The four numbers are 16-bit fields of the head buffer
    (`vnet_buffer (b)->ip.reass`); the list of ranges of a context, which the source links through
    `next_range_bi` from `first_bi` on, is a list here.

        fragment_first        range_first           range_last = fragment_last
             |--------------------[#########################] -/

namespace Vpp.Ip

/-- The reassembly fields of the buffer `bi`, the head of a kept fragment. -/
structure Range where
  bi : ℕ
  fragmentFirst : ℕ
  fragmentLast : ℕ
  rangeFirst : ℕ
  rangeLast : ℕ
deriving DecidableEq

/-- `ip4_full_reass_buffer_get_data_offset`, `ip6_full_reass_buffer_get_data_offset` -/
def Range.dataOffset (r : Range) : ℕ := (r.rangeFirst + 2 ^ 32 - r.fragmentFirst) % 2 ^ 32

/-- `ip4_full_reass_buffer_get_data_len`, `ip6_full_reass_buffer_get_data_len`: a 16-bit number. -/
def Range.dataLen (r : Range) : ℕ :=
  (min r.rangeLast r.fragmentLast + 2 ^ 32 - (r.fragmentFirst + r.dataOffset) % 2 ^ 32 + 1) % 2 ^ 16

/-- The check before a range is linked, unlinked or used. -/
def Range.sane (r : Range) : Bool := r.fragmentFirst ≤ r.rangeFirst || r.fragmentFirst < r.rangeLast

/-- `fragment_first`, `fragment_last`, `range_first` and `range_last` of a fragment that has just come. -/
def Range.ofFragment (bi first last : ℕ) : Range :=
  ⟨bi, first % 2 ^ 16, last % 2 ^ 16, first % 2 ^ 16, last % 2 ^ 16⟩

/-- `last_packet_octet` before the last fragment has come. -/
def noOctet : ℕ := 2 ^ 32 - 1

end Vpp.Ip
