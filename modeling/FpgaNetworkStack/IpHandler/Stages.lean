import FpgaNetworkStack.IpHandler.Engine
import FpgaNetworkStack.Lib.OnesSum

/-!
# One packet on its way

What each process makes of one packet, from where it waits for it to where it waits for the next one.  What the
processes read of a packet is told by its bytes.
-/

namespace FpgaNetworkStack.IpHandler

open Lib
open Axi (Word Packet Ends Framed headerOf headerOf_octet)
open Roce (PacketHeader Parsed parsed_clear)
open Toe (reverse16)

variable {N : Nat} {w : Word N} {ws : List (Word N)} {bytes : List (BitVec 8)}

/-! ## Fields of a frame -/

/-- The Ethernet protocol of a frame. -/
def etherType (frame : List (BitVec 8)) : BitVec 16 := frame.getD 12 0 ++ frame.getD 13 0

/-- What is behind the Ethernet header. -/
def ipPacket (frame : List (BitVec 8)) : List (BitVec 8) := frame.drop 14

/-- The number of halfwords of the header of an IP packet. -/
def headerHalfwords (ip : List (BitVec 8)) : Nat := 2 * ((ip.getD 0 0).extractLsb' 0 4).toNat

def protocol (ip : List (BitVec 8)) : BitVec 8 := ip.getD 9 0

/-- The destination, its first byte in the low bits as in `myIpAddress`. -/
def destination (ip : List (BitVec 8)) : BitVec 32 :=
  ip.getD 19 0 ++ (ip.getD 18 0 ++ (ip.getD 17 0 ++ ip.getD 16 0))

/-- The header as halfwords, the first byte of each in the high bits. -/
def halfwords (ip : List (BitVec 8)) : List Nat :=
  (List.range (headerHalfwords ip)).map fun k => (ip.getD (2 * k) 0 ++ ip.getD (2 * k + 1) 0).toNat

/-- The sum of the header in ones' complement is all ones. -/
def checksumOk (ip : List (BitVec 8)) : Bool := onesSum 65536 (halfwords ip) == 65535

def addressOk (myIpAddress : BitVec 32) (ip : List (BitVec 8)) : Bool :=
  destination ip == myIpAddress || destination ip == 0xFFFFFFFF

def accepted (myIpAddress : BitVec 32) (ip : List (BitVec 8)) : Bool := checksumOk ip && addressOk myIpAddress ip

-- two bytes of a number that are swapped
theorem reverse16_extract {m : Nat} (x : BitVec m) (k : Nat) :
    reverse16 (x.extractLsb' (8 * k) 16) = x.extractLsb' (8 * k) 8 ++ x.extractLsb' (8 * (k + 1)) 8 := by
  have hlow : (x.extractLsb' (8 * k) 16).extractLsb' 0 8 = x.extractLsb' (8 * k) 8 := by
    apply BitVec.eq_of_getLsbD_eq
    intro i hi
    have hi' : i < 16 := Nat.lt_trans hi (by decide)
    simp [hi, hi']
  have hhigh : (x.extractLsb' (8 * k) 16).extractLsb' 8 8 = x.extractLsb' (8 * (k + 1)) 8 := by
    apply BitVec.eq_of_getLsbD_eq
    intro i hi
    have hi' : 8 + i < 16 := by omega
    have hsum : 8 * k + (8 + i) = 8 * (k + 1) + i := by omega
    simp only [BitVec.getLsbD_extractLsb', hi, hi', hsum, decide_true, Bool.true_and]
  rw [reverse16, hlow, hhigh]

theorem getEthertype_headerOf (frame : List (BitVec 8)) : getEthertype (headerOf 14 frame) = etherType frame := by
  have hswap := reverse16_extract (headerOf 14 frame) 12
  rw [headerOf_octet (by decide), headerOf_octet (by decide)] at hswap
  exact hswap

theorem getProtocol_headerOf (ip : List (BitVec 8)) : getProtocol (headerOf 20 ip) = protocol ip := by
  have hbyte : (headerOf 20 ip).extractLsb' (8 * 9) 8 = ip.getD 9 0 := headerOf_octet (by decide) ip
  exact hbyte

-- four bytes, one after the other
theorem extract_word {m : Nat} (x : BitVec m) (k : Nat) :
    x.extractLsb' (8 * k) 32 = x.extractLsb' (8 * (k + 3)) 8 ++ (x.extractLsb' (8 * (k + 2)) 8 ++
      (x.extractLsb' (8 * (k + 1)) 8 ++ x.extractLsb' (8 * k) 8)) := by
  apply BitVec.eq_of_getLsbD_eq
  intro i hi
  rw [BitVec.getLsbD_append, BitVec.getLsbD_append, BitVec.getLsbD_append]
  simp only [BitVec.getLsbD_extractLsb', hi, decide_true, Bool.true_and]
  by_cases h1 : i < 8
  · have h2 : i < 8 + 8 := by omega
    have h3 : i < 8 + (8 + 8) := by omega
    simp only [h1, h2, h3, if_true, decide_true, Bool.true_and]
  · by_cases h2 : i < 8 + 8
    · have h3 : i < 8 + (8 + 8) := by omega
      have hlt : i - 8 < 8 := by omega
      have hsum : 8 * (k + 1) + (i - 8) = 8 * k + i := by omega
      simp only [h1, h2, h3, hlt, hsum, if_true, if_false, decide_true, Bool.true_and]
    · by_cases h3 : i < 8 + (8 + 8)
      · have hlt : i - (8 + 8) < 8 := by omega
        have hsum : 8 * (k + 2) + (i - (8 + 8)) = 8 * k + i := by omega
        simp only [h2, h3, hlt, hsum, if_true, if_false, decide_true, Bool.true_and]
      · have hlt : i - (8 + (8 + 8)) < 8 := by omega
        have hsum : 8 * (k + 3) + (i - (8 + (8 + 8))) = 8 * k + i := by omega
        simp only [h3, hlt, hsum, if_false, decide_true, Bool.true_and]

theorem validIpAddress_headerOf (myIpAddress : BitVec 32) (ip : List (BitVec 8)) :
    validIpAddress myIpAddress (headerOf 20 ip) = addressOk myIpAddress ip := by
  have hword := extract_word (headerOf 20 ip) 16
  rw [headerOf_octet (by decide), headerOf_octet (by decide), headerOf_octet (by decide),
    headerOf_octet (by decide)] at hword
  have hdst : getDstAddr (headerOf 20 ip) = destination ip := hword
  show (getDstAddr (headerOf 20 ip) == myIpAddress || getDstAddr (headerOf 20 ip) == 0xFFFFFFFF) = _
  rw [hdst]
  rfl

/-! ## Reading a header -/

/-- Waiting for a packet. -/
structure HeaderReader.Idle {size : Nat} (s : HeaderReader N size) : Prop where
  header : Parsed s.header []
  metaWritten : s.metaWritten = false

/-- In a packet whose header has been read. -/
structure HeaderReader.Busy {size : Nat} (s : HeaderReader N size) : Prop where
  ready : s.header.ready = true
  metaWritten : s.metaWritten = true

theorem HeaderReader.idle_init {size : Nat} (hsize : 0 < size) : ({} : HeaderReader N size).Idle := by
  refine ⟨⟨⟨?_, fun _ => rfl⟩, ?_⟩, rfl⟩
  · simp [Nat.pos_iff_ne_zero.mp hsize]
  · intro i _ hi
    simp at hi

theorem HeaderReader.Idle.read {n : Nat} {s : HeaderReader N (8 * n)} (hs : s.Idle) (hpos : 0 < n) (hn : n ≤ N)
    (h : Packet (w :: ws) bytes) (hlen : n ≤ bytes.length) :
    (s.read w).2 = [headerOf n bytes] ∧ (w.last = false → (s.read w).1.Busy) ∧
      (w.last = true → (s.read w).1.Idle) := by
  have hfull : 8 * n ≤ 8 * N * 1 := by omega
  have hfed : 8 * n ≤ ([] ++ [w.data]).length * (8 * N) := by
    show 8 * n ≤ 1 * (8 * N)
    omega
  have hparsed := hs.header.parseWord w.data
  have hready : (s.header.parseWord w.data).ready = true :=
    hparsed.fed.ready.trans (decide_eq_true hfed)
  have hheader : (s.header.parseWord w.data).header = headerOf n bytes := by
    rw [hparsed.header_eq hfed]
    have hpacket : Packet ([w] ++ ws) bytes := h
    exact hpacket.header_bytes hfull hlen
  refine ⟨?_, ?_, ?_⟩
  · simp [HeaderReader.read, hready, hheader, hs.metaWritten]
  · intro hlast
    exact ⟨by simp [HeaderReader.read, hlast, hready], by simp [HeaderReader.read, hlast, hready]⟩
  · intro hlast
    refine ⟨?_, by simp [HeaderReader.read, hlast]⟩
    have hclear : (s.read w).1.header = (s.header.parseWord w.data).clear := by simp [HeaderReader.read, hlast]
    rw [hclear]
    exact parsed_clear (by omega) _

-- nothing is read from the words behind it
theorem HeaderReader.Busy.read {size : Nat} {s : HeaderReader N size} (hs : s.Busy) (hpos : 0 < size) (w : Word N) :
    (s.read w).2 = [] ∧ (w.last = false → (s.read w).1.Busy) ∧ (w.last = true → (s.read w).1.Idle) := by
  have hparse : s.header.parseWord w.data = s.header := by rw [PacketHeader.parseWord, if_pos hs.ready]
  refine ⟨?_, ?_, ?_⟩
  · simp [HeaderReader.read, hparse, hs.ready, hs.metaWritten]
  · intro hlast
    exact ⟨by simp [HeaderReader.read, hlast, hparse, hs.ready], by simp [HeaderReader.read, hlast, hs.metaWritten]⟩
  · intro hlast
    refine ⟨?_, by simp [HeaderReader.read, hlast]⟩
    have hclear : (s.read w).1.header = s.header.clear := by simp [HeaderReader.read, hlast, hparse]
    rw [hclear]
    exact parsed_clear hpos _

end FpgaNetworkStack.IpHandler
