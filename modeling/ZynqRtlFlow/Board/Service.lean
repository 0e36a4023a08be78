import ZynqRtlFlow.Relu.Serving
import ZynqRtlFlow.SparseCnn.Serving

/-!
# A driver serves, or its accelerator is jammed

With the lock free, at any point of any schedule, either any tile that fits can be served
next, or a tile got stuck before and every tile from then on is refused: there is no point
at which some tiles are served and others are not, none from which a driver recovers by
itself, and none at which it refuses without a tile that got stuck.
-/

open Driver

namespace Board

/-- The Leaky ReLU and the sparse CNN, enabled and idle at probe. -/
theorem drivers_serve_or_refuse :
  (∀ s, ReluAxi.IdleAtProbe s → ReluAxi.enReg s = true → ∀ txBuf rxBuf es,
    let x := Driver.Relu.exitApi.schedule (start (A := ReluAxi.accelerator) s txBuf rxBuf ()) es
    Driver.Relu.api.schedule (start (A := ReluAxi.accelerator) s txBuf rxBuf ()) es
        = x.erase Driver.Relu.Call.ret
      ∧ (x.running = none → ServesOrRefuses Driver.Relu.exitApi Driver.Relu.reluOps
        (fun bytes => .file (.write bytes)) Driver.Relu.Call.tileExit x))
  ∧ ∀ s, SparseCnnAxi.IdleAtProbe s → SparseCnnAxi.enReg s = true → ∀ txBuf rxBuf priv es,
    let x := Driver.SparseCnn.exitApi.schedule
      (start (A := SparseCnnAxi.accelerator) s txBuf rxBuf priv) es
    Driver.SparseCnn.api.schedule (start (A := SparseCnnAxi.accelerator) s txBuf rxBuf priv) es
        = x.erase FileCall.ret
      ∧ (x.running = none → ServesOrRefuses Driver.SparseCnn.exitApi Driver.SparseCnn.sparseCnnOps
        .write FileCall.tileExit x)
  := by
  constructor
  · intro s h hen txBuf rxBuf es
    use Driver.Relu.erases_exitApi.schedule_eq _ es
    apply ReluAxi.serves_or_refuses (ReluAxi.waiting_start h txBuf rxBuf)
    apply ReluAxi.under_start h hen
  · intro s h hen txBuf rxBuf priv es
    use Driver.SparseCnn.erases_exitApi.schedule_eq _ es
    apply SparseCnnAxi.serves_or_refuses (SparseCnnAxi.between_start h txBuf rxBuf priv)
    apply SparseCnnAxi.under_start h hen

/-- A write none of whose beats moves, and then the same write on a board that never
stalls. -/
def cutShortFirst (bytes : List (BitVec 8)) :
    List (Api.Event (platform SparseCnnAxi.accelerator Driver.SparseCnn.Result) FileCall) :=
  let operation : List (Api.Event (platform SparseCnnAxi.accelerator Driver.SparseCnn.Result) FileCall) :=
    [.exec ⟨drain, true, .EBUSY, fun _ => 0, 0⟩, .move (.cycle drain), .move (.cycle drain)]
  [.invoke (.write bytes), .acquire 0] ++ (List.replicate 16 operation).flatten ++ [.release]
    ++ promptly (.write bytes) 8

/-- Out of reset: on the Leaky ReLU after a tile that failed before it was submitted, and on
the sparse CNN after one that was cut short. -/
theorem drivers_serve_or_refuse_after_reset :
  (ServesOrRefuses Driver.Relu.exitApi Driver.Relu.reluOps (fun bytes => .file (.write bytes))
    Driver.Relu.Call.tileExit
    (Driver.Relu.exitApi.schedule (start (A := ReluAxi.accelerator)
      (ReluAxi.reset ReluAxi.zero (ReluAxi.tileCycle false)) (fun _ => 0) (fun _ => 0) ())
      (failedFirst (.file (.write [3, 5])))))
  ∧ ServesOrRefuses Driver.SparseCnn.exitApi Driver.SparseCnn.sparseCnnOps .write FileCall.tileExit
    (Driver.SparseCnn.exitApi.schedule (start (A := SparseCnnAxi.accelerator)
      (SparseCnnAxi.reset SparseCnnAxi.zero SparseCnnAxi.quiet) (fun _ => 0) (fun _ => 0) ⟨0, 0⟩)
      (cutShortFirst [3, 5]))
  := by
  constructor
  · apply (drivers_serve_or_refuse.1 _ ⟨rfl, rfl, rfl, rfl, rfl⟩ rfl _ _ _).2
    apply Option.isNone_iff_eq_none.mp
    decide +kernel
  · apply (drivers_serve_or_refuse.2 _ ⟨rfl, rfl, rfl, rfl, rfl⟩ rfl _ _ _ _).2
    apply Option.isNone_iff_eq_none.mp
    decide +kernel

/-- The tile cut short is not transferred, and the next is refused. -/
example :
  (Driver.SparseCnn.exitApi.schedule (start (A := SparseCnnAxi.accelerator)
      (SparseCnnAxi.reset SparseCnnAxi.zero SparseCnnAxi.quiet) (fun _ => 0) (fun _ => 0) ⟨0, 0⟩)
      (cutShortFirst [3, 5])).log.map (fun e => e.1.tileExit e.2)
    = [some (.notTransferred .ETIMEDOUT), some (.refused .EBUSY)]
  := by
  decide +kernel

end Board
