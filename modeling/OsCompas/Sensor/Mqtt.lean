import Mathlib.Data.List.Forall2
import OsCompas.Sensor.Visualizer

/-!
# The publisher, the broker and the visualizer

`mqtt_publisher.py` publishes each reading on three topics under its `--topic` (lines
102–126), and `data_visualizer.py` subscribes to the fixed `lab/iot/sensor/#` (lines 26,
54). The broker routes all of them or none, and over any in-order delivery the deques hold
the newest 100 delivered readings, aligned.
-/

namespace OsCompas.Sensor

/-! ### Topics -/

/-- MQTT 3.1.1 §4.7: whether a subscription filter matches a topic name, both as levels. `+`
matches one level and a final `#` the parent level and every level below it. -/
def topicMatches : List String → List String → Bool
  | [], ts => ts.isEmpty
  | f :: fs, ts =>
    if f = "#" ∧ fs = [] then true
    else
      match ts with
      | [] => false
      | t :: ts => (f = "+" || f = t) && topicMatches fs ts

/-- A filter `pre/#` whose levels `pre` hold no wildcard matches the topics below `pre`, and
`pre` itself. -/
theorem topicMatches_hash {pre : List String} (hpre : ∀ f ∈ pre, f ≠ "+" ∧ f ≠ "#") :
    ∀ topic, topicMatches (pre ++ ["#"]) topic = true ↔ pre <+: topic := by
  induction pre with
  | nil => simp [topicMatches]
  | cons f pre ih =>
    have hf := hpre f (List.mem_cons_self _ _)
    have ih := ih fun g hg => hpre g (List.mem_cons_of_mem _ hg)
    rintro (_ | ⟨t, ts⟩)
    · simp [topicMatches, hf.2]
    · simp only [topicMatches, hf.1, hf.2, false_and, if_false, Bool.and_eq_true, Bool.or_eq_true,
        decide_eq_true_eq, false_or, List.append_eq, ih, List.cons_prefix_cons]

/-- `TOPIC_PREFIX`, `mqtt_publisher.py:17`, the publisher's default `--topic`. -/
def topicPrefix : List String := ["lab", "iot", "sensor"]

/-- `TOPIC`, `data_visualizer.py:26`, the filter `on_connect` subscribes to (line 54). -/
def visualizerTopic : List String := topicPrefix ++ ["#"]

/-- The visualizer's subscription takes exactly the topics under the sensor prefix. -/
theorem topicMatches_visualizerTopic (topic : List String) :
    topicMatches visualizerTopic topic = true ↔ topicPrefix <+: topic :=
  topicMatches_hash (by decide) topic

/-! ### The publisher -/

/-- What `generate_sensor_data` draws, lines 37–45: `round(random.uniform(15.0, 35.0), 1)`,
`round(random.uniform(30.0, 80.0), 1)` and `int(time.time())`. -/
structure Reading where
  temp : ℚ
  humi : ℚ
  time : Int

/-- `generate_sensor_data()` after `data["sequence"] = i + 1`, lines 37–45 and 109–110. -/
def sensorData (r : Reading) (sequence : Nat) : JsonVal :=
  .obj [("temp", .num r.temp), ("humi", .num r.humi), ("time", .num r.time),
    ("device_id", .str "test_device_001"), ("location", .str "lab_room_101"),
    ("sequence", .num sequence)]

/-- One `client.publish(topic, payload)`: the topic's levels and the payload text. -/
structure Publication where
  topic : List String
  payload : String

/-- The three topics of a round, lines 113–117. -/
def roundTopics (topic : List String) : List (List String) :=
  [topic ++ ["temperature"], topic ++ ["humidity"], topic ++ ["data"]]

/-- The publications of `main` in publish mode, lines 102–126, each with the reading it
carries: round `i` sends `json.dumps(data, indent=2)` on each of the three topics. -/
def rounds (dumps : JsonVal → String) (topic : List String) (readings : List Reading) :
    List (Publication × Reading) :=
  readings.enum.flatMap fun ir =>
    (roundTopics topic).map fun tp => (⟨tp, dumps (sensorData ir.2 (ir.1 + 1))⟩, ir.2)

/-- What the publisher sends, in order. -/
def publications (dumps : JsonVal → String) (topic : List String) (readings : List Reading) :
    List Publication :=
  (rounds dumps topic readings).map Prod.fst

/-- What the broker forwards to the visualizer, in order. -/
def routed (pubs : List Publication) : List Publication :=
  pubs.filter fun p => topicMatches visualizerTopic p.topic

/-- The message `on_message` gets for a publication: its payload as UTF-8 bytes. -/
def Publication.Carries (m : Message) (p : Publication) : Prop :=
  m.payload = p.payload.toUTF8.toList

/-! ### Routing -/

/-- Every publication of a run goes to a topic of its round and carries its reading's payload. -/
theorem mem_rounds {dumps : JsonVal → String} {topic : List String} {readings : List Reading}
    {p : Publication} {r : Reading} (h : (p, r) ∈ rounds dumps topic readings) :
    p.topic ∈ roundTopics topic ∧ ∃ ir ∈ readings.enum, ir.2 = r ∧
      p.payload = dumps (sensorData r (ir.1 + 1)) := by
  simp only [rounds, List.mem_flatMap, List.mem_map, Prod.mk.injEq] at h
  obtain ⟨ir, hir, tp, htp, rfl, rfl⟩ := h
  exact ⟨htp, ir, hir, rfl, rfl⟩

/-- Each reading goes out three times, once per topic. -/
theorem map_snd_rounds (dumps : JsonVal → String) (topic : List String) (readings : List Reading) :
    (rounds dumps topic readings).map Prod.snd = readings.flatMap fun r => [r, r, r] := by
  conv_rhs => rw [← List.enum_map_snd readings, List.flatMap_map]
  simp [rounds, List.map_flatMap, roundTopics]

/-- Each of a round's three topics is routed to the visualizer exactly when the publisher's
topic starts with `lab/iot/sensor`. -/
theorem topicMatches_roundTopics {topic tp : List String} (htp : tp ∈ roundTopics topic) :
    topicMatches visualizerTopic tp = true ↔ topicPrefix <+: topic := by
  rw [topicMatches_visualizerTopic]
  simp only [roundTopics, List.mem_cons, List.mem_singleton, List.not_mem_nil, or_false] at htp
  rcases htp with rfl | rfl | rfl <;>
    refine List.prefix_concat_iff.trans (or_iff_right fun h => ?_) <;>
    simpa [topicPrefix] using congrArg List.getLast? h

/-- Under the sensor prefix, the broker delivers every publication. -/
theorem routed_eq_publications (dumps : JsonVal → String) {topic : List String}
    (readings : List Reading) (hpre : topicPrefix <+: topic) :
    routed (publications dumps topic readings) = publications dumps topic readings :=
  List.filter_eq_self.2 fun p hp => by
    obtain ⟨⟨p, r⟩, hpr, rfl⟩ := List.mem_map.1 hp
    exact (topicMatches_roundTopics (mem_rounds hpr).1).2 hpre

/-- The broker forwards the publisher's messages to the visualizer exactly when the
publisher's topic starts with `lab/iot/sensor`: all of them, in order, or none; the
visualizer's own `--topic` is never read. -/
theorem routed_publications (dumps : JsonVal → String) (topic : List String)
    (readings : List Reading) :
    routed (publications dumps topic readings) =
      if topicPrefix <+: topic then publications dumps topic readings else [] := by
  split
  · exact routed_eq_publications dumps readings ‹_›
  · rename_i hpre
    refine List.filter_eq_nil_iff.2 fun p hp hmatch => hpre ?_
    obtain ⟨⟨p, r⟩, hpr, rfl⟩ := List.mem_map.1 hp
    exact (topicMatches_roundTopics (mem_rounds hpr).1).1 (by simpa using hmatch)

/-! ### What the visualizer appends -/

/-- A message whose payload `decode` and `json.loads` read back as a round's data appends the
round's reading, with its time as the clock formats it. -/
theorem appended_sensorData {rt : Runtime} {m : Message} {text : String} {r : Reading} {n : Nat}
    {label : String} (hd : rt.decode m.payload = .ok text) (hl : rt.loads text = .ok (sensorData r n))
    (hc : rt.localTime r.time = .ok label) :
    appended rt m = .all (.num r.temp) (.num r.humi) label := by
  have hr : readings rt m = .ok (.num r.temp, .num r.humi, .num r.time) := by
    simp only [readings, hd, hl, bind, Except.bind, pure, Except.pure]
    rfl
  rw [appended, hr]
  simp only [fromtimestamp, hc]

/-- The record a reading leaves in the three deques. -/
def recordOf (clock : Int → String) (r : Reading) : JsonVal × JsonVal × String :=
  (.num r.temp, .num r.humi, clock r.time)

/-- Messages that each carry a publication whose payload the runtime reads back as its
reading's data append one whole record each, in order. -/
theorem filterMap_record {rt : Runtime} {clock : Int → String} :
    ∀ {msgs : List Message} {l : List (Publication × Reading)},
      List.Forall₂ (fun m pr => Publication.Carries m pr.1) msgs l →
      (∀ pr ∈ l, ∀ m, Publication.Carries m pr.1 →
        appended rt m = .all (.num pr.2.temp) (.num pr.2.humi) (clock pr.2.time)) →
      (∀ m ∈ msgs, ∀ temp humi, appended rt m ≠ .readings temp humi) ∧
        msgs.filterMap (fun m => (appended rt m).record?) = l.map (recordOf clock ∘ Prod.snd)
  | _, _, .nil, _ => ⟨fun _ h => absurd h (List.not_mem_nil _), rfl⟩
  | m :: msgs, pr :: l, .cons hm h, hall => by
    have happ := hall pr (List.mem_cons_self _ _) m hm
    obtain ⟨hne, hmap⟩ := filterMap_record h fun pr' hpr' => hall pr' (List.mem_cons_of_mem _ hpr')
    refine ⟨fun m' hm' temp humi => ?_, ?_⟩
    · rcases List.mem_cons.1 hm' with rfl | hm'
      · rw [happ]; exact Appended.noConfusion
      · exact hne m' hm' temp humi
    · rw [List.filterMap_cons, happ, hmap]
      rfl

/-- Over every in-order delivery of the publisher's messages, QoS 0 losses included, with a
runtime that reads back what the publisher encoded and a clock that formats every published
time: the delivered publications are those of a sublist `l` of the rounds, whose readings
are the publisher's readings, each three times, when nothing is lost and the topic is
routed; and the deques hold the newest 100 of `l`'s readings, aligned index by index. -/
theorem receiveAll_publications (rt : Runtime) (dumps : JsonVal → String) (clock : Int → String)
    (topic : List String) (readings : List Reading) {delivered : List Publication}
    {msgs : List Message} (hdel : delivered.Sublist (routed (publications dumps topic readings)))
    (hmsgs : List.Forall₂ Publication.Carries msgs delivered)
    (hdecode : ∀ p ∈ delivered, rt.decode p.payload.toUTF8.toList = .ok p.payload)
    (hloads : ∀ ir ∈ readings.enum,
      rt.loads (dumps (sensorData ir.2 (ir.1 + 1))) = .ok (sensorData ir.2 (ir.1 + 1)))
    (hclock : ∀ r ∈ readings, rt.localTime r.time = .ok (clock r.time)) :
    ∃ l : List (Publication × Reading), l.Sublist (rounds dumps topic readings) ∧
      l.map Prod.fst = delivered ∧
      (l.map Prod.snd).Sublist (readings.flatMap fun r => [r, r, r]) ∧
      (delivered = routed (publications dumps topic readings) → topicPrefix <+: topic →
        l.map Prod.snd = readings.flatMap fun r => [r, r, r]) ∧
      let b : DataBuffer := receiveAll rt dataBuffer msgs
      let rs := ((l.map Prod.snd).rtake 100).map (recordOf clock)
      b.temperature.items = rs.map (·.1) ∧ b.humidity.items = rs.map (·.2.1) ∧
        b.timestamps.items = rs.map (·.2.2) := by
  have hsub : delivered.Sublist (((rounds dumps topic readings).filter fun pr =>
      topicMatches visualizerTopic pr.1.topic).map Prod.fst) := by
    simpa only [routed, publications, List.filter_map] using hdel
  obtain ⟨l, hl, rfl⟩ := List.sublist_map_iff.1 hsub
  have hlr : l.Sublist (rounds dumps topic readings) := hl.trans (List.filter_sublist _)
  have happ : ∀ pr ∈ l, ∀ m, Publication.Carries m pr.1 →
      appended rt m = .all (.num pr.2.temp) (.num pr.2.humi) (clock pr.2.time) := by
    intro pr hpr m hm
    obtain ⟨-, ir, hir, hr, hpay⟩ := mem_rounds (hlr.subset hpr)
    refine @appended_sensorData rt m _ pr.2 (ir.1 + 1) _
      (by rw [hm]; exact hdecode _ (List.mem_map_of_mem _ hpr)) ?_
      (hclock pr.2 (hr ▸ List.snd_mem_of_mem_enum hir))
    rw [hpay, ← hr]
    exact hloads ir hir
  obtain ⟨hne, hrec⟩ := filterMap_record (List.forall₂_map_right_iff.1 hmsgs) happ
  obtain ⟨ht, hh, hs⟩ := receiveAll_aligned rt msgs hne
  refine ⟨l, hlr, rfl, map_snd_rounds dumps topic readings ▸ hlr.map _, fun hall hpre => ?_, ?_⟩
  · rw [routed_eq_publications dumps readings hpre, publications] at hall
    rw [hlr.eq_of_length (by simpa using congrArg List.length hall), map_snd_rounds]
  · rw [hrec, ← List.map_map, rtake_map] at ht hh hs
    exact ⟨ht, hh, hs⟩

/-- One reading, published to the three topics of its round under the sensor prefix, is appended
to each deque three times. -/
theorem receiveAll_publications_round :
    let r : Reading := ⟨20, 50, 1700000000⟩
    let dumps : JsonVal → String := fun _ => "data"
    let clock : Int → String := fun _ => "22:13:20"
    let rt : Runtime := ⟨fun _ => .ok "data", fun _ => .ok (sensorData r 1), fun _ => .ok "22:13:20"⟩
    let delivered := routed (publications dumps topicPrefix [r])
    let msgs := delivered.map fun p => (⟨p.payload.toUTF8.toList, 0⟩ : Message)
    (delivered.Sublist (routed (publications dumps topicPrefix [r])) ∧
      List.Forall₂ Publication.Carries msgs delivered ∧
      (∀ p ∈ delivered, rt.decode p.payload.toUTF8.toList = .ok p.payload) ∧
      (∀ ir ∈ [r].enum,
        rt.loads (dumps (sensorData ir.2 (ir.1 + 1))) = .ok (sensorData ir.2 (ir.1 + 1))) ∧
      ∀ r' ∈ [r], rt.localTime r'.time = .ok (clock r'.time)) ∧
    ∃ l : List (Publication × Reading), l.Sublist (rounds dumps topicPrefix [r]) ∧
      l.map Prod.fst = delivered ∧
      (l.map Prod.snd).Sublist ([r].flatMap fun r => [r, r, r]) ∧
      (delivered = routed (publications dumps topicPrefix [r]) → topicPrefix <+: topicPrefix →
        l.map Prod.snd = [r].flatMap fun r => [r, r, r]) ∧
      let b : DataBuffer := receiveAll rt dataBuffer msgs
      let rs := ((l.map Prod.snd).rtake 100).map (recordOf clock)
      b.temperature.items = rs.map (·.1) ∧ b.humidity.items = rs.map (·.2.1) ∧
        b.timestamps.items = rs.map (·.2.2) := by
  intro r dumps clock rt delivered msgs
  have hmsgs : List.Forall₂ Publication.Carries msgs delivered :=
    List.forall₂_map_left_iff.2 (List.forall₂_same.2 fun _ _ => rfl)
  have hdecode : ∀ p ∈ delivered, rt.decode p.payload.toUTF8.toList = .ok p.payload := by
    intro p hp
    obtain ⟨⟨p, r'⟩, hpr, rfl⟩ := List.mem_map.1 (List.mem_of_mem_filter hp)
    obtain ⟨-, ir, -, -, hpay⟩ := mem_rounds hpr
    rw [hpay]
  have hloads : ∀ ir ∈ [r].enum,
      rt.loads (dumps (sensorData ir.2 (ir.1 + 1))) = .ok (sensorData ir.2 (ir.1 + 1)) := by
    intro ir hir
    obtain rfl : ir = (0, r) := by simpa using hir
    rfl
  have hclock : ∀ r' ∈ [r], rt.localTime r'.time = .ok (clock r'.time) := fun _ _ => rfl
  exact ⟨⟨List.Sublist.refl _, hmsgs, hdecode, hloads, hclock⟩,
    receiveAll_publications rt dumps clock topicPrefix [r] (List.Sublist.refl _) hmsgs hdecode
      hloads hclock⟩

example :
    let r : Reading := ⟨20, 50, 1700000000⟩
    let rt : Runtime := ⟨fun _ => .ok "data", fun _ => .ok (sensorData r 1), fun _ => .ok "22:13:20"⟩
    let msgs := (routed (publications (fun _ => "data") topicPrefix [r])).map fun p =>
      (⟨p.payload.toUTF8.toList, 0⟩ : Message)
    (receiveAll rt dataBuffer msgs).timestamps.items = ["22:13:20", "22:13:20", "22:13:20"] := by
  decide

end OsCompas.Sensor
