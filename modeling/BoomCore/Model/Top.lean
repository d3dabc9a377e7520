import BoomCore.Model.Step

/-!
# The top function

`boom_core_top` of `src/boom_core_top.cpp`: the loop `CORE_CYCLE` around the step of the core. The
state and the streams between the ports and the core outlive an iteration, and an iteration moves at
most one element through each port. Nothing is ever taken off the output ports here, so each holds
everything that was written to it.
-/

set_option autoImplicit false
set_option relaxedAutoImplicit false

namespace BoomCore

namespace Stream

variable {α : Type}

/-- `if (!in.empty() && !s.full()) s.write(in.read());`, with the input stream behind it. -/
def pull (s source : Stream α) : Stream α × Stream α :=
  match source.read with
  | none => (s, source)
  | some (v, rest) => if s.full then (s, source) else (s.write v, rest)

/-- `if (!s.empty()) out.write(s.read());`, with the output stream behind it. -/
def drain (s sink : Stream α) : Stream α × Stream α :=
  match s.read with
  | none => (s, sink)
  | some (v, rest) => (rest, sink.write v)

end Stream

/-- The ports of `boom_core_top`. -/
structure TopPorts where
  imemReqOut : Stream ImemRequest := {}
  imemRespIn : Stream ImemResponse := {}
  dmemReqOut : Stream DmemRequest := {}
  dmemRespIn : Stream DmemResponse := {}
  commitTraceOut : Stream CommitEntry := {}
  ioSuccess : Bool := false
  ioHalted : Bool := false
  ioTrap : Bool := false
  ioCycleValid : Bool := false
  ioCycle : BitVec 64 := 0
  ioInstret : BitVec 64 := 0

/-- The core, the streams between it and the ports, and the ports. -/
structure BoomCoreTop where
  state : BoomCoreState := {}
  pipe : PipeSignals := {}
  ports : TopPorts := {}

namespace BoomCoreTop

/-- The streams as the core finds them in an iteration. -/
def pulled (top : BoomCoreTop) : PipeSignals :=
  { top.pipe with
    imemResp := (top.pipe.imemResp.pull top.ports.imemRespIn).1
    dmemResp := (top.pipe.dmemResp.pull top.ports.dmemRespIn).1 }

/-- The step of the core in an iteration, with the streams as it leaves them. -/
def coreStep (top : BoomCoreTop) : BoomCoreState × PipeSignals := boomCoreStep top.state top.pulled

/-- One iteration of `CORE_CYCLE`. -/
def coreCycle (top : BoomCoreTop) : BoomCoreTop :=
  let stepped := top.coreStep
  { state := stepped.1
    pipe :=
      { stepped.2 with
        imemReq := (stepped.2.imemReq.drain top.ports.imemReqOut).1
        dmemReq := (stepped.2.dmemReq.drain top.ports.dmemReqOut).1
        commitTrace := (stepped.2.commitTrace.drain top.ports.commitTraceOut).1 }
    ports :=
      { imemReqOut := (stepped.2.imemReq.drain top.ports.imemReqOut).2
        imemRespIn := (top.pipe.imemResp.pull top.ports.imemRespIn).2
        dmemReqOut := (stepped.2.dmemReq.drain top.ports.dmemReqOut).2
        dmemRespIn := (top.pipe.dmemResp.pull top.ports.dmemRespIn).2
        commitTraceOut := (stepped.2.commitTrace.drain top.ports.commitTraceOut).2
        ioSuccess := stepped.1.ioSuccess
        ioHalted := stepped.1.ioHalted
        ioTrap := stepped.1.ioTrap
        ioCycleValid := true
        ioCycle := stepped.1.csr.cycle
        ioInstret := stepped.1.csr.instret } }

end BoomCoreTop

end BoomCore
