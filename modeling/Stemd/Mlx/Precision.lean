/-! At which precision a model runs.

The two architectures want different things of the same card, so a precision is chosen
for each model and not for a run. -/

set_option autoImplicit false

namespace Stemd.Mlx

inductive Accelerator where
  | metal
  | cuda
  | cpu
  deriving DecidableEq, Repr

inductive Family where
  | htDemucs
  | roformer
  deriving DecidableEq, Repr

inductive Precision where
  | f16
  | f32
  deriving DecidableEq, Repr

/-- What a model is fastest at, where it is accurate at all. -/
def Precision.preferred : Family → Accelerator → Precision
  | _, .cpu => .f32
  | .htDemucs, _ => .f16
  | .roformer, .metal => .f16
  | .roformer, .cuda => .f32

def Precision.display : Precision → String
  | .f16 => "f16"
  | .f32 => "f32"

end Stemd.Mlx
