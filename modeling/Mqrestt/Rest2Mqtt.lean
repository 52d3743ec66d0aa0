import Mathlib
import Mqrestt.MqttClient
import Mqrestt.Utils

/-!
# `rest2mqtt_unit.c`: from a POST to a message

libmicrohttpd calls `answer_to_connection` several times for one request: first
with `*con_cls` still `NULL`, then once for each chunk of the body, then once more
without data. Between the calls the body lives on the heap, in a record that
`*con_cls` points to; the calls of other requests work on the same heap.
-/

namespace Mqrestt
open CSem Mqtt

structure IncomingData where
  length : Nat
  data : Option Addr
  deriving DecidableEq

structure Store where
  records : Heap IncomingData
  buffers : Heap Block

inductive MhdResult where
  | no
  | yes
  deriving DecidableEq, Repr

inductive QueryArg where
  | absent
  | noValue
  | value (v : CStr)
  deriving DecidableEq

def mhdLookupConnectionValue : QueryArg → Option CStr
  | .value v => some v
  | _ => none

structure Request where
  url : CStrAt
  method : CStr
  version : CStr
  qos : QueryArg

/-- `upload_data`: the bytes that `*upload_data_size` counts, and the memory behind them. -/
structure Upload where
  chunk : List Byte
  beyond : List Byte

structure CallEnv where
  alloc : Option Addr
  -- the contents of memory it hands out
  fill : Mem
  -- the variable `qos` before it is assigned
  qos : Int
  publish : MosqErr
  queueResponse : MhdResult

/-- One call of the handler; `upload` is `none` where `upload_data` is `NULL`. -/
structure Call where
  upload : Option Upload
  env : CallEnv

def Call.chunk (c : Call) : List Byte := (c.upload.map Upload.chunk).getD []

def Call.uploadData (c : Call) : Option (List Byte) := c.upload.map fun u => u.chunk ++ u.beyond

def Call.uploadDataSize (c : Call) : Nat := c.chunk.length

/-- What a call leaves behind: its result, `*upload_data_size`, the heap and `*con_cls`. -/
structure Answer where
  ret : MhdResult
  uploadDataSize : Nat
  store : Store
  conCls : Option Addr

def postMethod : CStr := ⟨bytes "POST", by decide⟩

def sizeofIncomingData (w : LongWidth) : Nat := 2 * (w.bits / 8)

def firstCall (w : LongWidth) (c : Call) (st : Store) : Run Answer := do
  info "GOT POST connect, data: %s %zd" [.str (c.uploadData.map cstr), .num c.uploadDataSize]
  let (p, records) ← safeMalloc st.records c.env.alloc { length := 0, data := none }
    (sizeofIncomingData w) 98
  return { ret := .yes, uploadDataSize := c.uploadDataSize, store := { st with records }, conCls := some p }

/-- The stores of a chunk behind the first `length` bytes of the body: the terminator set by hand,
then those of `strncat`. One byte more than was requested is taken to be readable. -/
def chunkStores (b : Block) (length : Nat) (data : List Byte) (size : Nat) : Stores :=
  let m := applyStores b.bytes [((length : Int), 0)]
  ((length : Int), 0) :: strncat m (b.size + 1) length data size

def continuation (c : Call) (st : Store) (p : Addr) : Run Answer := do
  let data := c.uploadData.getD []
  let size := c.uploadDataSize
  info "GOT POST continuation, size %zd,  data: %s" [.num size, .str (c.uploadData.map cstr)]
  let incoming ← deref st.records p
  if let some d := incoming.data then
    let _ ← deref st.buffers d
  let (d, buffers) ← safeRealloc st.buffers c.env.alloc c.env.fill incoming.data (incoming.length + size) 109
  let b ← deref buffers d
  let stored := chunkStores b incoming.length data size
  Proc.emits (writes .incomingData b.size stored)
  return {
    ret := .yes
    uploadDataSize := 0
    store := {
      records := st.records.insert p { length := incoming.length + size, data := some d }
      buffers := buffers.insert d { b with bytes := applyStores b.bytes stored } }
    conCls := some p }

def bodyString (b : Block) : List Byte := scan b.bytes (b.size + 1) 0

def finalCall (w : LongWidth) (cls : MqttClientHandle) (r : Request) (c : Call) (st : Store)
    (p : Addr) : Run Answer := do
  let qosVal := mhdLookupConnectionValue r.qos
  info "QOS: %s" [.str (qosVal.map (·.bytes))]
  let (_, qos) ← parseInt w (qosVal.map (·.bytes)) c.env.qos
  let incoming ← deref st.records p
  let msg ← match incoming.data with
    | none => pure none
    | some d => do
      let b ← deref st.buffers d
      pure (some (bodyString b))
  -- whether the message was taken makes no difference to the answer
  let _ ← mqttClientPublish cls r.url.mem msg qos c.env.publish
  Proc.emit (.queueResponse { status := mhdHttpOk, contentType := "text/html", body := bytes "OK" ++ [0] })
  return {
    ret := c.env.queueResponse
    uploadDataSize := c.uploadDataSize
    store := {
      records := st.records.erase p
      buffers := match incoming.data with
        | none => st.buffers
        | some d => st.buffers.erase d }
    conCls := some p }

def answerPost (w : LongWidth) (cls : MqttClientHandle) (r : Request) (c : Call) (st : Store) :
    Option Addr → Run Answer
  | none => firstCall w c st
  | some p => if c.uploadDataSize ≠ 0 then continuation c st p else finalCall w cls r c st p

def answerToConnection (w : LongWidth) (cls : MqttClientHandle) (r : Request) (c : Call) (st : Store)
    (conCls : Option Addr) : Run Answer := do
  info "CONNECT, url: %s, type: %s, version: %s "
    [.str (some r.url.str.bytes), .str (some r.method.bytes), .str (some r.version.bytes)]
  if r.method ≠ postMethod then
    return { ret := .no, uploadDataSize := c.uploadDataSize, store := st, conCls }
  answerPost w cls r c st conCls

/-! ## The calls of one request -/

structure Conn where
  store : Store
  conCls : Option Addr

def answerCall (w : LongWidth) (cls : MqttClientHandle) (r : Request) (s : Conn) (c : Call) : Run Conn := do
  let a ← answerToConnection w cls r c s.store s.conCls
  return { store := a.store, conCls := a.conCls }

def answerCalls (w : LongWidth) (cls : MqttClientHandle) (r : Request) (st : Store) (cs : List Call) : Run Conn :=
  cs.foldlM (answerCall w cls r) { store := st, conCls := none }

/-! ## The calls of all requests -/

/-- The heap, and the `*con_cls` that libmicrohttpd keeps for each request. -/
structure Server (ι : Type) where
  store : Store
  conCls : ι → Option Addr

section
variable {ι : Type} [DecidableEq ι] (w : LongWidth) (cls : MqttClientHandle) (req : ι → Request)

def serve (s : Server ι) (e : ι × Call) : Proc (ι × Effect) Halt (Server ι) := do
  let a ← (answerToConnection w cls (req e.1) e.2 s.store (s.conCls e.1)).mapOut (Prod.mk e.1)
  return { store := a.store, conCls := Function.update s.conCls e.1 a.conCls }

def serveAll (s : Server ι) (es : List (ι × Call)) : Proc (ι × Effect) Halt (Server ι) :=
  es.foldlM (serve w cls req) s

def freshServer (st : Store) : Server ι := ⟨st, fun _ => none⟩

def answered (st : Store) (es : List (ι × Call)) : List (ι × Call) :=
  Proc.returned (serve w cls req) (freshServer st) es

/-- The calls that were made: those that returned, and the one that ended the process. -/
def made (st : Store) (es : List (ι × Call)) : List (ι × Call) :=
  es.take ((answered w cls req st es).length + 1)

/-! ## Requests that are aborted -/

/-- A call of the access handler, or the end of a request whose peer is gone. -/
inductive ServerEvent (ι : Type) where
  | call (i : ι) (c : Call)
  | abort (i : ι)

/-- `MHD_start_daemon` is given no `MHD_OPTION_NOTIFY_COMPLETED`: nothing is told of an abort. -/
def serveEvent (s : Server ι) : ServerEvent ι → Proc (ι × Effect) Halt (Server ι)
  | .call i c => serve w cls req s (i, c)
  | .abort _ => pure s

def serveEvents (s : Server ι) (evs : List (ServerEvent ι)) : Proc (ι × Effect) Halt (Server ι) :=
  evs.foldlM (serveEvent w cls req) s

end

end Mqrestt
