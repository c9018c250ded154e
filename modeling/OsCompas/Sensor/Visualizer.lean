import Mathlib.Data.List.DropRight
import Mathlib.Data.Rat.Defs

/-!
# The sensor data visualizer

`on_message`, `update_plot` and the `--save` data of `data_visualizer.py` (lines 17–21,
59–116, 167–177), with the handler in `ExceptT` over the buffer so that an exception keeps
the appends before it. A `time` that `fromtimestamp` rejects leaves `timestamps` one entry
behind the readings.
-/

namespace OsCompas.Sensor

/-! ### Bounded deques -/

/-- The newest `n` of a list's newest `n` and more items are its newest `n` and those. -/
theorem rtake_rtake_append {α : Type} (n : Nat) (l xs : List α) :
    (l.rtake n ++ xs).rtake n = (l ++ xs).rtake n := by
  simp only [List.rtake_eq_reverse_take_reverse, List.reverse_append, List.reverse_reverse,
    List.take_append_eq_append_take, List.take_take, List.length_reverse]
  congr 3
  omega

/-- The newest `n` items of a list no longer than `n` are the list. -/
theorem rtake_of_length_le {α : Type} {n : Nat} {l : List α} (h : l.length ≤ n) :
    l.rtake n = l := by
  simp [List.rtake, Nat.sub_eq_zero_of_le h]

/-- `rtake` commutes with `map`. -/
theorem rtake_map {α β : Type} (f : α → β) (n : Nat) (l : List α) :
    (l.map f).rtake n = (l.rtake n).map f := by
  simp [List.rtake, List.map_drop]


/-- `collections.deque(maxlen=n)`: at most `maxlen` items, the oldest first. -/
structure Deque (α : Type) where
  items : List α
  maxlen : Nat
  length_le : items.length ≤ maxlen

namespace Deque

variable {α : Type}

/-- `deque(maxlen=n)`, empty. -/
def empty (maxlen : Nat) : Deque α := ⟨[], maxlen, Nat.zero_le _⟩

/-- `d.append(x)`: a full deque drops its oldest item. -/
def append (d : Deque α) (x : α) : Deque α :=
  ⟨(d.items ++ [x]).drop (d.items.length + 1 - d.maxlen), d.maxlen, by simp; omega⟩

/-- An append keeps the bound. -/
@[simp]
theorem maxlen_append (d : Deque α) (x : α) : (d.append x).maxlen = d.maxlen := rfl

/-- An append keeps the newest `maxlen` items of the old ones and `x`. -/
theorem items_append (d : Deque α) (x : α) :
    (d.append x).items = (d.items ++ [x]).rtake d.maxlen := by
  simp [append, List.rtake]

/-- The items after appending what an `Option` holds. -/
theorem items_elim (d : Deque α) (o : Option α) :
    (o.elim d d.append).items = (d.items ++ o.toList).rtake d.maxlen := by
  cases o with
  | none => simpa using (rtake_of_length_le d.length_le).symm
  | some x => exact items_append d x

end Deque

/-! ### JSON values and the library calls -/

/-- A value `json.loads` returns; an object holds the items of the `dict` it builds. -/
inductive JsonVal
  | null
  | bool (b : Bool)
  | num (x : ℚ)
  | str (s : String)
  | arr (xs : List JsonVal)
  | obj (kvs : List (String × JsonVal))

/-- The exceptions the body of `on_message` can raise; `except Exception` catches each. -/
inductive PyException
  | unicodeDecodeError
  | jsonDecodeError
  | attributeError
  | typeError
  | overflowError
  | valueError
  | osError

/-- `data.get(key, default)`: only a `dict` has `get`; another value raises `AttributeError`. -/
def JsonVal.get (data : JsonVal) (key : String) (default : JsonVal) :
    Except PyException JsonVal :=
  match data with
  | .obj kvs => .ok ((kvs.lookup key).getD default)
  | _ => .error .attributeError

/-- `datetime.fromtimestamp(timestamp).strftime('%H:%M:%S')` on the local clock `localTime`:
an `int` (a `bool` among them) or a `float` is formatted, or is out of the clock's range; any
other value raises `TypeError`. -/
def fromtimestamp (localTime : ℚ → Except PyException String) :
    JsonVal → Except PyException String
  | .num x => localTime x
  | .bool b => localTime (if b then 1 else 0)
  | _ => .error .typeError

/-- The library calls `on_message` makes, left abstract. -/
structure Runtime where
  /-- `bytes.decode()`. -/
  decode : List UInt8 → Except PyException String
  /-- `json.loads`. -/
  loads : String → Except PyException JsonVal
  /-- A timestamp's local time as `'%H:%M:%S'`, or the error for one out of range. -/
  localTime : ℚ → Except PyException String

/-! ### `on_message` -/

/-- `data_buffer`, lines 17–21. -/
structure DataBuffer where
  temperature : Deque JsonVal
  humidity : Deque JsonVal
  timestamps : Deque String

/-- `data_buffer` at start: three empty deques of `maxlen=100`. -/
def dataBuffer : DataBuffer := ⟨.empty 100, .empty 100, .empty 100⟩

/-- A message as `on_message` sees it: the payload, and what `time.time()` returns during
the call. -/
structure Message where
  payload : List UInt8
  now : ℚ

/-- The `try` block of `on_message`, lines 62–78. -/
def onMessageBody (rt : Runtime) (msg : Message) :
    ExceptT PyException (StateM DataBuffer) Unit := do
  let payload ← rt.decode msg.payload
  let data ← rt.loads payload
  let temp ← data.get "temp" (.num 0)
  let humi ← data.get "humi" (.num 0)
  let timestamp ← data.get "time" (.num msg.now)
  modify fun b => { b with temperature := b.temperature.append temp }
  modify fun b => { b with humidity := b.humidity.append humi }
  let label ← fromtimestamp rt.localTime timestamp
  modify fun b => { b with timestamps := b.timestamps.append label }

/-- `on_message`, lines 59–81: `except Exception` swallows what the body raises. -/
def onMessage (rt : Runtime) (msg : Message) : ExceptT PyException (StateM DataBuffer) Unit :=
  try onMessageBody rt msg catch _ => pure ()

/-- The buffer after the client hands `msg` to `on_message`. -/
def receive (rt : Runtime) (b : DataBuffer) (msg : Message) : DataBuffer :=
  ((onMessage rt msg).run.run b).2

/-- The buffer after a sequence of messages. -/
def receiveAll (rt : Runtime) (b : DataBuffer) (msgs : List Message) : DataBuffer :=
  msgs.foldl (receive rt) b

/-! ### What one message appends -/

/-- What one call of `on_message` appends to `data_buffer`. -/
inductive Appended
  /-- The body raised before its first append. -/
  | nothing
  /-- `fromtimestamp` raised, after the temperature and the humidity were appended. -/
  | readings (temp humi : JsonVal)
  /-- The body ran to its end. -/
  | all (temp humi : JsonVal) (label : String)

namespace Appended

/-- The temperature and humidity appended, if any. -/
def readings? : Appended → Option (JsonVal × JsonVal)
  | nothing => none
  | readings temp humi | all temp humi _ => some (temp, humi)

/-- The timestamp appended, if any. -/
def label? : Appended → Option String
  | all _ _ label => some label
  | _ => none

/-- The whole record appended, if all three buffers got one. -/
def record? : Appended → Option (JsonVal × JsonVal × String)
  | all temp humi label => some (temp, humi, label)
  | _ => none

/-- The appends, carried out on a buffer. -/
def apply (a : Appended) (b : DataBuffer) : DataBuffer :=
  ⟨(a.readings?.map Prod.fst).elim b.temperature b.temperature.append,
    (a.readings?.map Prod.snd).elim b.humidity b.humidity.append,
    a.label?.elim b.timestamps b.timestamps.append⟩

/-- The timestamp appended is that of a whole record. -/
theorem label?_eq (a : Appended) : a.label? = a.record?.map (·.2.2) := by
  cases a <;> rfl

/-- Unless `fromtimestamp` raised, a reading appended is that of a whole record. -/
theorem readings?_eq {a : Appended} (h : ∀ temp humi, a ≠ .readings temp humi) :
    a.readings? = a.record?.map fun r => (r.1, r.2.1) := by
  cases a with
  | readings temp humi => exact absurd rfl (h temp humi)
  | _ => rfl

end Appended

/-- The three fields the body reads from a message, or what it raises before its first
append. -/
def readings (rt : Runtime) (msg : Message) : Except PyException (JsonVal × JsonVal × JsonVal) := do
  let data ← rt.loads (← rt.decode msg.payload)
  return (← data.get "temp" (.num 0), ← data.get "humi" (.num 0), ← data.get "time" (.num msg.now))

/-- What `on_message` appends for `msg`. -/
def appended (rt : Runtime) (msg : Message) : Appended :=
  match readings rt msg with
  | .error _ => .nothing
  | .ok (temp, humi, timestamp) =>
    match fromtimestamp rt.localTime timestamp with
    | .error _ => .readings temp humi
    | .ok label => .all temp humi label

/-! ### Running the handler -/

section Run

variable {α β : Type}

/-- A value lifted from `Except` either feeds the rest of the handler or stops it with the
buffer as it stands. -/
@[simp]
theorem run_liftM_bind (e : Except PyException α)
    (k : α → ExceptT PyException (StateM DataBuffer) β) (b : DataBuffer) :
    ((liftM e : ExceptT PyException (StateM DataBuffer) α) >>= k).run.run b =
      match e with
      | .ok a => (k a).run.run b
      | .error x => (.error x, b) := by
  cases e <;> rfl

/-- Running a buffer update then a handler step runs the step on the updated buffer. -/
@[simp]
theorem run_modify_bind (f : DataBuffer → DataBuffer)
    (k : PUnit → ExceptT PyException (StateM DataBuffer) β) (b : DataBuffer) :
    ((modify f : ExceptT PyException (StateM DataBuffer) PUnit) >>= k).run.run b =
      (k ⟨⟩).run.run (f b) := rfl

/-- Running a buffer update returns the updated buffer. -/
@[simp]
theorem run_modify (f : DataBuffer → DataBuffer) (b : DataBuffer) :
    (modify f : ExceptT PyException (StateM DataBuffer) PUnit).run.run b = (.ok ⟨⟩, f b) := rfl

/-- A handler that swallows every exception ends with the buffer its body leaves. -/
@[simp]
theorem run_tryCatch (x : ExceptT PyException (StateM DataBuffer) Unit) (b : DataBuffer) :
    (tryCatch x fun _ => pure () : ExceptT PyException (StateM DataBuffer) Unit).run.run b =
      (.ok (), (x.run.run b).2) := by
  simp only [tryCatch, tryCatchThe, MonadExceptOf.tryCatch, ExceptT.tryCatch, ExceptT.run,
    ExceptT.mk, StateT.run_bind]
  generalize StateT.run x b = r
  rcases r with ⟨_ | _, _⟩ <;> rfl

end Run

/-- One call of `on_message` carries out exactly the appends `appended` names. -/
theorem receive_eq (rt : Runtime) (b : DataBuffer) (msg : Message) :
    receive rt b msg = (appended rt msg).apply b := by
  simp only [receive, onMessage, run_tryCatch, onMessageBody, run_liftM_bind, run_modify_bind,
    run_modify, appended, readings]
  simp only [bind, Except.bind, pure, Except.pure]
  rcases rt.decode msg.payload with e | text
  · rfl
  dsimp only
  rcases rt.loads text with e | data
  · rfl
  dsimp only
  cases data
  all_goals try rfl
  dsimp only [JsonVal.get]
  cases fromtimestamp rt.localTime _ <;> rfl

/-! ### Runs -/

/-- `filterMap` over a list, one element at a time. -/
theorem filterMap_cons_toList {α β : Type} (f : α → Option β) (a : α) (l : List α) :
    (a :: l).filterMap f = (f a).toList ++ l.filterMap f := by
  cases h : f a <;> simp [List.filterMap_cons, h]

/-- Each buffer of `data_buffer` ends up holding the newest `maxlen` of what it held and of
what the messages appended to it. -/
theorem items_receiveAll {γ : Type} (field : DataBuffer → Deque γ) (out : Appended → Option γ)
    (hstep : ∀ a b, field (a.apply b) = (out a).elim (field b) (field b).append)
    (rt : Runtime) (b : DataBuffer) (msgs : List Message) :
    (field (receiveAll rt b msgs)).items =
      ((field b).items ++ msgs.filterMap fun m => out (appended rt m)).rtake (field b).maxlen := by
  induction msgs generalizing b with
  | nil => simpa using (rtake_of_length_le (field b).length_le).symm
  | cons m msgs ih =>
    have hmax : (field (receive rt b m)).maxlen = (field b).maxlen := by
      rw [receive_eq, hstep]; cases out (appended rt m) <;> rfl
    rw [receiveAll, List.foldl_cons, ← receiveAll, ih, hmax, receive_eq, hstep, Deque.items_elim,
      rtake_rtake_append, filterMap_cons_toList, List.append_assoc]

/-- From an empty `data_buffer`: the temperature and the humidity at each index come from one
message, the newest 100 of those that got past `json.loads` and the three `get`s; the
timestamps are the newest 100 of those `fromtimestamp` formatted. -/
theorem receiveAll_dataBuffer (rt : Runtime) (msgs : List Message) :
    let b := receiveAll rt dataBuffer msgs
    let rs := msgs.filterMap fun m => (appended rt m).readings?
    b.temperature.items = (rs.rtake 100).map Prod.fst ∧
      b.humidity.items = (rs.rtake 100).map Prod.snd ∧
      b.timestamps.items = (msgs.filterMap fun m => (appended rt m).label?).rtake 100 := by
  refine ⟨?_, ?_, ?_⟩
  · rw [items_receiveAll DataBuffer.temperature (fun a => a.readings?.map Prod.fst) (fun _ _ => rfl),
      ← rtake_map, List.map_filterMap]
    rfl
  · rw [items_receiveAll DataBuffer.humidity (fun a => a.readings?.map Prod.snd) (fun _ _ => rfl),
      ← rtake_map, List.map_filterMap]
    rfl
  · exact items_receiveAll DataBuffer.timestamps Appended.label? (fun _ _ => rfl) rt dataBuffer msgs

/-- If `fromtimestamp` never raises after the two appends, the three buffers stay aligned:
index `i` of each holds the `i`-th of the newest 100 whole records. -/
theorem receiveAll_aligned (rt : Runtime) (msgs : List Message)
    (h : ∀ m ∈ msgs, ∀ temp humi, appended rt m ≠ .readings temp humi) :
    let b := receiveAll rt dataBuffer msgs
    let rs := (msgs.filterMap fun m => (appended rt m).record?).rtake 100
    b.temperature.items = rs.map (·.1) ∧ b.humidity.items = rs.map (·.2.1) ∧
      b.timestamps.items = rs.map (·.2.2) := by
  have hrs : (msgs.filterMap fun m => (appended rt m).readings?) =
      (msgs.filterMap fun m => (appended rt m).record?).map fun r => (r.1, r.2.1) := by
    rw [List.map_filterMap]
    exact List.filterMap_congr fun m hm => Appended.readings?_eq (h m hm)
  obtain ⟨ht, hh, hs⟩ := receiveAll_dataBuffer rt msgs
  refine ⟨?_, ?_, ?_⟩
  · rw [ht, hrs, rtake_map, List.map_map]; rfl
  · rw [hh, hrs, rtake_map, List.map_map]; rfl
  · simp only [hs, Appended.label?_eq, ← List.map_filterMap, rtake_map]

/-- A payload whose `time` is a string: `fromtimestamp` raises after the temperature and the
humidity were appended, so the first message leaves one entry in each and none in
`timestamps`. -/
theorem receive_time_not_number (rt : Runtime) (msg : Message) {text : String}
    (hd : rt.decode msg.payload = .ok text)
    (hl : rt.loads text = .ok (.obj [("time", .str "x")])) :
    let b := receive rt dataBuffer msg
    b.temperature.items = [.num 0] ∧ b.humidity.items = [.num 0] ∧ b.timestamps.items = [] := by
  have happ : appended rt msg = .readings (.num 0) (.num 0) := by
    simp only [appended, readings, hd, hl, bind, Except.bind, pure, Except.pure, JsonVal.get]
    rfl
  simp only [receive_eq, happ]
  exact ⟨rfl, rfl, rfl⟩

/-- A payload whose `time` is the text `x`: one entry in the temperature and humidity deques,
none in `timestamps`. -/
theorem receive_time_not_number_x :
    let text := "\x7b\"time\": \"x\"\x7d"
    let rt : Runtime := ⟨fun _ => .ok text, fun _ => .ok (.obj [("time", .str "x")]),
      fun _ => .ok "00:00:00"⟩
    let msg : Message := ⟨text.toUTF8.toList, 0⟩
    (rt.decode msg.payload = .ok text ∧ rt.loads text = .ok (.obj [("time", .str "x")])) ∧
      let b := receive rt dataBuffer msg
      b.temperature.items = [.num 0] ∧ b.humidity.items = [.num 0] ∧ b.timestamps.items = [] :=
  ⟨⟨rfl, rfl⟩, receive_time_not_number _ _ rfl rfl⟩

/-! ### Drawing and saving -/

/-- The `--save` output of `main`, lines 167–177: the three deques as lists, written when
`timestamps` is not empty. -/
def saveData (save : Bool) (b : DataBuffer) :
    Option (List JsonVal × List JsonVal × List String) :=
  if save ∧ b.timestamps.items.length > 0 then
    some (b.temperature.items, b.humidity.items, b.timestamps.items)
  else none

end OsCompas.Sensor
