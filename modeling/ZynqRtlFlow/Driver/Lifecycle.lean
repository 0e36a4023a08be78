import ZynqRtlFlow.Driver.Relu
import ZynqRtlFlow.Driver.SparseCnn

/-!
# Lifetimes

Open files, bound devices and loaded modules come and go in any order.  Probing takes
resources one by one, and what it has taken is released in reverse order when the device
is unbound or probing fails.  The kernel stops new opens when the character device is
deregistered, leaves the files already open alone, and keeps loaded only the module named
in `fops.owner`, which is the transport.
-/

namespace Driver

/-- The modules of the register layers. -/
inductive LayerModule where
  | sparseCnn
  | relu
  deriving DecidableEq, Repr

/-- What probing takes: the register layer's own data, the `accel_device`, the register
mapping, the channels and their buffers, the character device, the attribute group. -/
inductive Resource where
  | priv
  | device
  | regs
  | chan (c : Chan)
  | buffer (c : Chan)
  | node
  | attrs
  deriving DecidableEq, Repr

/-! ### Probing -/

/-- A step of a probe: it returns an error, or may; it takes a resource, or fails; it
leaves the release of the resource taken last to the device, or releases it at once and
fails. -/
inductive ProbeStep where
  | refuse
  | check
  | take (r : Resource)
  | addActionOrReset
  deriving DecidableEq, Repr

/-- `accel_claim_stream`. -/
def accelClaimStream (c : Chan) : List ProbeStep :=
  [.take (.chan c), .addActionOrReset, .take (.buffer c), .addActionOrReset]

/-- `accel_probe`. -/
def accelProbe {π : Type} (ops : AccelOps π) : List ProbeStep :=
  if ops.beatBytes = 0 then [.refuse]
  else
    [.take .device, .take .regs, .check] ++ accelClaimStream .tx
      ++ (if ops.duplex then accelClaimStream .rx else []) ++ [.take .node, .addActionOrReset]

/-- `sparse_cnn_probe`. -/
def sparseCnnProbe : List ProbeStep :=
  .take .priv :: accelProbe SparseCnn.sparseCnnOps

/-- `relu_probe`. -/
def reluProbe : List ProbeStep :=
  accelProbe Relu.reluOps ++ [.take .attrs]

/-- The resources that steps take, in order. -/
def takes (steps : List ProbeStep) : List Resource :=
  steps.filterMap fun
    | .take r => some r
    | _ => none

namespace LayerModule

/-- The probe of a module. -/
def probe : LayerModule → List ProbeStep
  | .sparseCnn => sparseCnnProbe
  | .relu => reluProbe

/-- What `accel_probe` takes for the module. -/
def claims : LayerModule → List Resource
  | .sparseCnn => takes (accelProbe SparseCnn.sparseCnnOps)
  | .relu => takes (accelProbe Relu.reluOps)

end LayerModule

/-! ### Devices being probed, bound and released -/

/-- A platform device from the start of its probe: what is left of the probe, the
resources held, the last one taken first, and whether they are being released. -/
structure Instance where
  layer : LayerModule
  device : ℕ
  todo : List ProbeStep
  held : List Resource
  leaving : Bool
  deriving DecidableEq, Repr

namespace Instance

/-- Something of it is left. -/
def live (x : Instance) : Bool :=
  !(x.leaving && x.held.isEmpty)

/-- The next step of the probe succeeds or fails. -/
def probeStep (ok : Bool) (x : Instance) : Instance :=
  if x.leaving then x
  else
    match x.todo with
    | [] => x
    | .refuse :: _ => { x with leaving := true }
    | .check :: todo | .addActionOrReset :: todo =>
        if ok then { x with todo := todo } else { x with leaving := true }
    | .take r :: todo =>
        if ok then { x with todo := todo, held := r :: x.held } else { x with leaving := true }

/-- The driver is unbound from the device. -/
def unbind (x : Instance) : Instance :=
  if x.todo.isEmpty then { x with leaving := true } else x

/-- The resource taken last is released. -/
def release (x : Instance) : Instance :=
  if x.leaving then { x with held := x.held.tail } else x

end Instance

/-! ### The system -/

/-- The operations on an open file. -/
inductive FileOp where
  | read
  | write
  deriving DecidableEq, Repr

/-- An open file: the device it was opened on, and the calls of `accel_read` and
`accel_write` at work on it. -/
structure OpenFile where
  inst : ℕ
  ops : List FileOp
  deriving DecidableEq, Repr

/-- The modules loaded, the devices the overlays describe, those probed so far, and the
open files. -/
structure System where
  transport : Bool
  loaded : List LayerModule
  devices : List (ℕ × LayerModule)
  instances : List Instance
  files : List OpenFile
  deriving DecidableEq, Repr

/-- What can happen next.  An overlay is removed, and a register layer unloaded, by
unbinding the devices concerned and, when nothing is left of them, removing them or the
module. -/
inductive LifeEvent where
  | loadTransport
  | unloadTransport
  | loadLayer (l : LayerModule)
  | unloadLayer (l : LayerModule)
  | addDevice (d : ℕ) (l : LayerModule)
  | removeDevice (d : ℕ)
  | probe (d : ℕ) (l : LayerModule)
  | probeStep (i : ℕ) (ok : Bool)
  | unbind (i : ℕ)
  | release (i : ℕ)
  | openFile (i : ℕ)
  | beginOp (k : ℕ) (op : FileOp)
  | finishOp (k j : ℕ)
  | closeFile (k : ℕ)
  deriving DecidableEq, Repr

namespace System

/-- Nothing loaded, no overlay, no file open. -/
def init : System := ⟨false, [], [], [], []⟩

/-- A file can be opened on an instance while its character device is registered. -/
def openable (s : System) (i : ℕ) : Bool :=
  s.instances[i]?.any fun x => x.held.contains .node

/-- The system after an event; an event that cannot happen changes nothing. -/
def next (s : System) : LifeEvent → System
  | .loadTransport => { s with transport := true }
  | .unloadTransport =>
      if s.loaded.isEmpty && s.files.isEmpty then { s with transport := false } else s
  | .loadLayer l =>
      if s.transport && !s.loaded.contains l then { s with loaded := l :: s.loaded } else s
  | .unloadLayer l =>
      if s.instances.all fun x => x.layer != l || !x.live then
        { s with loaded := s.loaded.filter (· != l) }
      else s
  | .addDevice d l =>
      if s.devices.all (·.1 != d) then { s with devices := (d, l) :: s.devices } else s
  | .removeDevice d =>
      if s.instances.all fun x => x.device != d || !x.live then
        { s with devices := s.devices.filter (·.1 != d) }
      else s
  | .probe d l =>
      if s.devices.contains (d, l) && s.loaded.contains l
          && s.instances.all fun x => x.device != d || !x.live then
        { s with instances := s.instances ++ [⟨l, d, l.probe, [], false⟩] }
      else s
  | .probeStep i ok => { s with instances := s.instances.modify i (·.probeStep ok) }
  | .unbind i => { s with instances := s.instances.modify i Instance.unbind }
  | .release i => { s with instances := s.instances.modify i Instance.release }
  | .openFile i => if s.openable i then { s with files := s.files ++ [⟨i, []⟩] } else s
  | .beginOp k op => { s with files := s.files.modify k fun f => { f with ops := op :: f.ops } }
  | .finishOp k j => { s with files := s.files.modify k fun f => { f with ops := f.ops.eraseIdx j } }
  | .closeFile k =>
      if s.files[k]?.any fun f => f.ops.isEmpty then { s with files := s.files.eraseIdx k } else s

/-- The system after a run. -/
def run (es : List LifeEvent) : System :=
  es.foldl next init

theorem run_concat (es : List LifeEvent) (e : LifeEvent) :
  run (es ++ [e]) = (run es).next e
  := by
  rw [run, List.foldl_append]
  rfl

/-- What the file operations of an open file use is held: the ops table of the module,
and all that `accel_probe` took for the device. -/
def Holds (s : System) (f : OpenFile) : Prop :=
  ∃ x ∈ s.instances[f.inst]?, x.layer ∈ s.loaded ∧ ∀ r ∈ x.layer.claims, r ∈ x.held

instance (s : System) (f : OpenFile) : Decidable (s.Holds f) :=
  inferInstanceAs (Decidable (∃ x ∈ s.instances[f.inst]?, _))

/-- Every `accel_read` and `accel_write` at work has what it uses. -/
def Safe (s : System) : Prop :=
  ∀ f ∈ s.files, f.ops ≠ [] → s.Holds f

instance (s : System) : Decidable s.Safe :=
  inferInstanceAs (Decidable (∀ f ∈ s.files, _))

/-- The character device of the instance is the next thing to be released. -/
def Deregisters (s : System) (i : ℕ) : Prop :=
  ∃ x ∈ s.instances[i]?, x.leaving = true ∧ x.held.head? = some .node

instance (s : System) (i : ℕ) : Decidable (s.Deregisters i) :=
  inferInstanceAs (Decidable (∃ x ∈ s.instances[i]?, _))

/-- A character device is deregistered only while no file is open on it. -/
def Careful (s : System) : LifeEvent → Prop
  | .release i => s.Deregisters i → ∀ f ∈ s.files, f.inst ≠ i
  | _ => True

instance (s : System) : (e : LifeEvent) → Decidable (s.Careful e)
  | .release i => inferInstanceAs (Decidable (s.Deregisters i → ∀ f ∈ s.files, f.inst ≠ i))
  | .loadTransport | .unloadTransport | .loadLayer _ | .unloadLayer _ | .addDevice _ _
  | .removeDevice _ | .probe _ _ | .probeStep _ _ | .unbind _ | .openFile _ | .beginOp _ _
  | .finishOp _ _ | .closeFile _ => isTrue trivial

/-- Every step of a run from `s` is careful. -/
def CarefulRun (s : System) : List LifeEvent → Prop
  | [] => True
  | e :: es => s.Careful e ∧ CarefulRun (s.next e) es

instance decidableCarefulRun (s : System) : (es : List LifeEvent) → Decidable (s.CarefulRun es)
  | [] => isTrue trivial
  | e :: es =>
      have := decidableCarefulRun (s.next e) es
      inferInstanceAs (Decidable (s.Careful e ∧ (s.next e).CarefulRun es))

end System

end Driver
