import MapRelay.ForStd.Codec

/-!
# The packet buffer

The headers of the simulator write and read themselves through the buffer iterator of
ns-3. What a header needs of it is that each kind of word has its documented width and is
read as it was written; `Buffer.network` is the iterator that keeps network byte order.
-/

namespace MapRelay.NS3

open ForStd

/-- The accessors of the buffer iterator that the headers use. -/
structure Buffer where
  u8 : Codec UInt8
  htonU32 : Codec UInt32
  htonU64 : Codec UInt64
  address : Codec UInt32
  width_u8 : u8.width = 1
  width_htonU32 : htonU32.width = 4
  width_htonU64 : htonU64.width = 8
  width_address : address.width = 4

attribute [simp] Buffer.width_u8 Buffer.width_htonU32 Buffer.width_htonU64 Buffer.width_address

/-- Words of four bytes in network byte order. -/
def networkU32 : Codec UInt32 :=
  .word 4 UInt32.toNat UInt32.ofNat (fun a => a.toNat_lt) fun _ => UInt32.ofNat_toNat

/-- The iterator of ns-3. -/
def Buffer.network : Buffer where
  u8 := .word 1 UInt8.toNat UInt8.ofNat (fun a => a.toNat_lt) fun _ => UInt8.ofNat_toNat
  htonU32 := networkU32
  htonU64 := .word 8 UInt64.toNat UInt64.ofNat (fun a => a.toNat_lt) fun _ => UInt64.ofNat_toNat
  address := networkU32
  width_u8 := rfl
  width_htonU32 := rfl
  width_htonU64 := rfl
  width_address := rfl

end MapRelay.NS3
