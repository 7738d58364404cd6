import Nachos.Model.Network
import Nachos.Verification.FileSystem.Layout

/-! # Letters in packets

A letter is what one machine says to another: the header of the mail, its bytes and who sent
it. The two headers around it are read as they were written, in whatever buffer the packet
is. -/

namespace Nachos.Post

structure Letter where
  sender : NetworkAddress
  mailHdr : MailHeader
  data : List Byte
deriving DecidableEq

def Letter.box (letter : Letter) : MailBoxAddress :=
  letter.mailHdr.toBox

/-- The first bytes of an array. -/
def contents (data : Bytes) (length : Word) : List Byte :=
  (List.range length.toNat).map data

def Sent.letter (e : Sent) : Letter :=
  ⟨e.sender, e.call.mailHdr, contents e.call.data e.call.mailHdr.length⟩

def Mail.letter (mail : Mail) : Letter :=
  ⟨mail.pktHdr.fromAddr, mail.mailHdr, contents mail.data mail.mailHdr.length⟩

/-- The letter in the data of a packet. -/
def letterIn (hdr : PacketHeader) (payload : Bytes) : Letter where
  sender := hdr.fromAddr
  mailHdr := MailHeader.ofBytes payload
  data := contents (behind payload sizeofMailHeader) (MailHeader.ofBytes payload).length

/-- The data of the packet are a mail header and as many bytes as it says. -/
structure Sound (hdr : PacketHeader) (payload : Bytes) : Prop where
  length : hdr.length.toNat = sizeofMailHeader + (MailHeader.ofBytes payload).length.toNat
  fits : (MailHeader.ofBytes payload).length.toNat ≤ maxMailSize

/-! ## Copies -/

theorem contents_congr {a b : Bytes} {length : Word} (h : ∀ k < length.toNat, a k = b k) :
    contents a length = contents b length :=
  List.map_congr_left fun k hk => h k (List.mem_range.mp hk)

theorem bcopy_of_lt (src dst : Bytes) {length k : ℕ} (hk : k < length) :
    bcopy src dst 0 length k = src k := by
  rw [bcopy, if_pos (by omega), Nat.sub_zero]

theorem bcopy_add (src dst : Bytes) {start length k : ℕ} (hk : k < length) :
    bcopy src dst start length (start + k) = src k := by
  rw [bcopy, if_pos (by omega), Nat.add_sub_cancel_left]

theorem bcopy_before (src dst : Bytes) {start length k : ℕ} (hk : k < start) :
    bcopy src dst start length k = dst k := by
  rw [bcopy, if_neg (by omega)]

/-! ## Headers -/

section Headers

variable {a b : Bytes}

theorem threeWords_read {first second third : Word}
    (h : ∀ k < 12, a k = threeWords first second third k) :
    wordAt a 0 = first ∧ wordAt a 4 = second ∧ wordAt a 8 = third := by
  refine ⟨wordAt_eq fun k hk => ?_, wordAt_eq fun k hk => ?_, wordAt_eq fun k hk => ?_⟩
  · rw [h _ (by omega), threeWords, if_pos (by omega), Nat.zero_add, Nat.mod_eq_of_lt hk]
  · rw [h _ (by omega), threeWords, if_neg (by omega), if_pos (by omega), Nat.add_mod_left,
      Nat.mod_eq_of_lt hk]
  · have hmod : (8 + k) % 4 = k := by omega
    rw [h _ (by omega), threeWords, if_neg (by omega), if_neg (by omega), hmod]

theorem PacketHeader.ofBytes_eq {hdr : PacketHeader}
    (h : ∀ k < sizeofPacketHeader, a k = hdr.toBytes k) : PacketHeader.ofBytes a = hdr := by
  obtain ⟨hto, hfrom, hlength⟩ := threeWords_read h
  rw [PacketHeader.ofBytes, hto, hfrom, hlength]

theorem MailHeader.ofBytes_eq {hdr : MailHeader}
    (h : ∀ k < sizeofMailHeader, a k = hdr.toBytes k) : MailHeader.ofBytes a = hdr := by
  obtain ⟨hto, hfrom, hlength⟩ := threeWords_read h
  rw [MailHeader.ofBytes, hto, hfrom, hlength]

theorem PacketHeader.ofBytes_congr (h : ∀ k < 12, a k = b k) :
    PacketHeader.ofBytes a = PacketHeader.ofBytes b := by
  unfold PacketHeader.ofBytes
  rw [wordAt_congr fun k hk => h (0 + k) (by omega), wordAt_congr fun k hk => h (4 + k) (by omega),
    wordAt_congr fun k hk => h (8 + k) (by omega)]

theorem MailHeader.ofBytes_congr (h : ∀ k < 12, a k = b k) :
    MailHeader.ofBytes a = MailHeader.ofBytes b := by
  unfold MailHeader.ofBytes
  rw [wordAt_congr fun k hk => h (0 + k) (by omega), wordAt_congr fun k hk => h (4 + k) (by omega),
    wordAt_congr fun k hk => h (8 + k) (by omega)]

end Headers

/-! ## The data of a packet -/

section Payload

variable {hdr : PacketHeader} {a b : Bytes}

theorem Sound.length_ne_zero (h : Sound hdr a) : hdr.length ≠ 0#32 := by
  intro hzero
  have hlength := h.length
  rw [hzero] at hlength
  exact absurd hlength (by rw [BitVec.toNat_zero]; unfold sizeofMailHeader; omega)

theorem Sound.length_le (h : Sound hdr a) : hdr.length.toNat ≤ maxPacketSize := by
  have hfits := h.fits
  rw [h.length]
  unfold maxMailSize maxPacketSize maxWireSize sizeofPacketHeader sizeofMailHeader at *
  omega

/-- Only the bytes that the header counts are read. -/
theorem Sound.congr (h : Sound hdr a) (hab : ∀ k < hdr.length.toNat, b k = a k) :
    Sound hdr b ∧ letterIn hdr b = letterIn hdr a := by
  have hlength := h.length
  have hmail : MailHeader.ofBytes b = MailHeader.ofBytes a :=
    MailHeader.ofBytes_congr fun k hk => hab k (by unfold sizeofMailHeader at hlength; omega)
  constructor
  · refine ⟨?_, ?_⟩
    · rw [hmail]
      exact h.length
    · rw [hmail]
      exact h.fits
  · have hdata : contents (behind b sizeofMailHeader) (MailHeader.ofBytes a).length =
        contents (behind a sizeofMailHeader) (MailHeader.ofBytes a).length :=
      contents_congr fun k hk => hab _ (by omega)
    unfold letterIn
    rw [hmail, hdata]

/-- The data are copied to another buffer. -/
theorem Sound.bcopy (h : Sound hdr a) (dst : Bytes) :
    Sound hdr (bcopy a dst 0 hdr.length.toNat) ∧
      letterIn hdr (Nachos.bcopy a dst 0 hdr.length.toNat) = letterIn hdr a :=
  h.congr fun _ hk => bcopy_of_lt a dst hk

/-- The mail that the worker makes of the data. -/
theorem letter_create {mail : Mail} {data : Bytes}
    (h : Mail.create hdr (MailHeader.ofBytes a) (behind a sizeofMailHeader) data = some mail) :
    mail.letter = letterIn hdr a := by
  unfold Mail.create at h
  split at h
  · cases h
    have hdata : contents (Nachos.bcopy (behind a sizeofMailHeader) data 0
        (MailHeader.ofBytes a).length.toNat) (MailHeader.ofBytes a).length =
        contents (behind a sizeofMailHeader) (MailHeader.ofBytes a).length :=
      contents_congr fun _ hk => bcopy_of_lt _ _ hk
    unfold Mail.letter letterIn
    rw [hdata]
  · cases h

end Payload

/-! ## Packets -/

namespace Packet

variable (packet : Packet)

def hdr : PacketHeader :=
  PacketHeader.ofBytes (packet.read fun _ => 0#8)

def payload : Bytes :=
  behind (packet.read fun _ => 0#8) sizeofPacketHeader

theorem read_congr (buffer : Bytes) {k : ℕ} (hk : k < maxWireSize) :
    packet.read buffer k = packet.read (fun _ => 0#8) k := by
  rw [read, read, dif_pos hk, dif_pos hk]

/-- What was in the buffer before does not matter. -/
theorem ofBytes_read (buffer : Bytes) : PacketHeader.ofBytes (packet.read buffer) = packet.hdr :=
  PacketHeader.ofBytes_congr fun _ hk =>
    packet.read_congr buffer (by unfold maxWireSize; omega)

theorem payload_read {packet : Packet} (h : Sound packet.hdr packet.payload) (buffer : Bytes) :
    Sound packet.hdr (behind (packet.read buffer) sizeofPacketHeader) ∧
      letterIn packet.hdr (behind (packet.read buffer) sizeofPacketHeader) =
        letterIn packet.hdr packet.payload := by
  refine h.congr fun k hk => packet.read_congr buffer ?_
  have hle := h.length_le
  unfold maxPacketSize maxWireSize sizeofPacketHeader at *
  omega

end Packet

/-- The packet that `Network::Send` makes. -/
theorem packet_of_sound {hdr : PacketHeader} {payload : Bytes} (h : Sound hdr payload)
    (buffer : Bytes) (packet : Packet)
    (hpacket : packet = .ofBuffer (bcopy payload (bcopy hdr.toBytes buffer 0 sizeofPacketHeader)
      sizeofPacketHeader hdr.length.toNat)) :
    packet.hdr = hdr ∧ Sound packet.hdr packet.payload ∧
      letterIn packet.hdr packet.payload = letterIn hdr payload := by
  have hle := h.length_le
  have hread {k : ℕ} (hk : k < maxWireSize) : packet.read (fun _ => 0#8) k =
      bcopy payload (bcopy hdr.toBytes buffer 0 sizeofPacketHeader) sizeofPacketHeader
        hdr.length.toNat k := by
    rw [hpacket, Packet.read, dif_pos hk, Packet.ofBuffer]
  have hhdr : packet.hdr = hdr := by
    refine PacketHeader.ofBytes_eq fun k hk => ?_
    have hlt : k < maxWireSize := lt_trans hk (by decide)
    rw [hread hlt, bcopy_before _ _ hk, bcopy_of_lt _ _ hk]
  refine ⟨hhdr, ?_⟩
  rw [hhdr]
  refine h.congr fun k hk => ?_
  unfold maxPacketSize maxWireSize at hle
  rw [Packet.payload, behind, hread (by unfold maxWireSize; omega), bcopy_add _ _ hk]

/-! ## What `PostOffice::Send` writes -/

/-- The buffer has the letter of the call, and the header is for the machine it is to. -/
structure Outgoing.Ok (addr : NetworkAddress) (o : Outgoing) : Prop where
  toAddr : o.pktHdr.toAddr = o.call.pktHdr.toAddr
  sound : Sound o.pktHdr o.buffer
  letter : letterIn o.pktHdr o.buffer = Sent.letter ⟨addr, o.call⟩

theorem ok_start (addr : NetworkAddress) (call : Call) (buffer : Bytes)
    (hlength : call.mailHdr.length.toNat ≤ maxMailSize) :
    Outgoing.Ok addr {
      call := call
      pktHdr := { call.pktHdr with
        fromAddr := addr
        length := call.mailHdr.length + BitVec.ofNat 32 sizeofMailHeader }
      buffer := bcopy call.data (bcopy call.mailHdr.toBytes buffer 0 sizeofMailHeader)
        sizeofMailHeader call.mailHdr.length.toNat } := by
  have hmail : MailHeader.ofBytes (bcopy call.data
      (bcopy call.mailHdr.toBytes buffer 0 sizeofMailHeader) sizeofMailHeader
        call.mailHdr.length.toNat) = call.mailHdr := by
    refine MailHeader.ofBytes_eq fun k hk => ?_
    rw [bcopy_before _ _ hk, bcopy_of_lt _ _ hk]
  have hdata : contents (behind (bcopy call.data
      (bcopy call.mailHdr.toBytes buffer 0 sizeofMailHeader) sizeofMailHeader
        call.mailHdr.length.toNat) sizeofMailHeader) call.mailHdr.length =
      contents call.data call.mailHdr.length :=
    contents_congr fun k hk => bcopy_add _ _ hk
  refine ⟨rfl, ⟨?_, ?_⟩, ?_⟩
  · rw [hmail]
    show (call.mailHdr.length + BitVec.ofNat 32 sizeofMailHeader).toNat = _
    rw [BitVec.toNat_add]
    unfold sizeofMailHeader maxMailSize maxPacketSize maxWireSize sizeofPacketHeader at *
    simp
    omega
  · rw [hmail]
    exact hlength
  · unfold letterIn Sent.letter
    rw [hmail, hdata]

end Nachos.Post
