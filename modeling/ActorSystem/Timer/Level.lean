import ActorSystem.Timer.Arena
import ActorSystem.Timer.Handle

set_option autoImplicit false

namespace ActorSystem.Timer

instance neZero_levels : @NeZero Nat Zero.ofOfNat0 5 := ⟨by decide⟩

instance neZero_slots : @NeZero Nat Zero.ofOfNat0 256 := ⟨by decide⟩

structure Level where
  slots : Vector Chain 256
  index : Fin 256
  base : Nat
  count : Nat

namespace Level

def unit (k : Nat) : Nat := 1 <<< (8 * k)

/-- Level 0 starts at `now` and every other one unit later, where the level below it ends. -/
def start (k now : Nat) : Nat := if k = 0 then now else now + unit k

def new (k now : Nat) : Level := ⟨.replicate 256 .empty, 0, start k now, 0⟩

def reset (l : Level) (k now : Nat) : Level := { l with index := 0, base := start k now }

def slotFor (l : Level) (k due : Nat) : Fin 256 :=
  Fin.ofNat 256 (l.index.val + (due - l.base) / unit k)

def current (l : Level) : Chain := l.slots.get l.index

def untilWrap (l : Level) : Nat := 256 - l.index.val

def setSlot (l : Level) (s : Fin 256) (c : Chain) (count : Nat) : Level :=
  { l with slots := l.slots.set s c, count }

def skip (l : Level) (k steps : Nat) : Level :=
  { l with index := Fin.ofNat 256 (l.index.val + steps), base := l.base + steps * unit k }

def nonEmptySlots (l : Level) : Nat := l.slots.toList.countP fun c => !c.isEmpty

end Level

end ActorSystem.Timer
