/-!
# MAC addresses
-/

namespace MapRelay

/-- `Mac48Address`, and the `u8 mac[6]` of the kernel module. -/
abbrev Mac48Address := { bytes : List UInt8 // bytes.length = 6 }

namespace Mac48Address

/-- The address with these bytes. -/
def ofBytes (b₀ b₁ b₂ b₃ b₄ b₅ : UInt8) : Mac48Address := ⟨[b₀, b₁, b₂, b₃, b₄, b₅], rfl⟩

/-- `Mac48Address ()`, the address with six zero bytes. -/
def zero : Mac48Address := ⟨[0, 0, 0, 0, 0, 0], rfl⟩

/-- `GetBroadcast`. -/
def broadcast : Mac48Address := ⟨[0xff, 0xff, 0xff, 0xff, 0xff, 0xff], rfl⟩

end Mac48Address

end MapRelay
