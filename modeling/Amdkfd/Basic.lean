import Mathlib.Algebra.Ring.Nat
import Mathlib.Data.Finset.Basic

/-!
# Shared vocabulary of the driver models

Kernel functions that return `0` or a negative error code are modelled by
`Except Errno`, or by `Option Errno` when only the code is returned.
-/

namespace Amdkfd

/-- The error codes the modelled functions return. `other` stands for a code
that a firmware or kernel service outside the driver reports. -/
inductive Errno
  | einval | enomem | enodev | enospc | eperm | ebusy | efault | eagain | eio | etime | esrch
  | edeadlk | erestartsys | ealready | ebadf | eexist | enodata | enoent | eacces | eaddrinuse
  | other
  deriving DecidableEq, Repr

/-- Lists of pairs of ids are searched in several models. -/
instance natPair_lawfulBEq : LawfulBEq (Nat × Nat) := inferInstance

/-- `hash_64` of `linux/hash.h`. -/
def hash64 (val bits : Nat) : Nat := val * 0x61C8864680B583EB % 2 ^ 64 / 2 ^ (64 - bits)

theorem hash64_lt (val : Nat) {bits : Nat} (h : bits ≤ 64) : hash64 val bits < 2 ^ bits := by
  rw [hash64, Nat.div_lt_iff_lt_mul (Nat.two_pow_pos _), ← Nat.pow_add, Nat.add_sub_cancel' h]
  exact Nat.mod_lt _ (Nat.two_pow_pos _)

end Amdkfd
