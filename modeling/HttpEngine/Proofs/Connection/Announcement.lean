import HttpEngine.Proofs.Connection.Rounds
import HttpEngine.Proofs.Message.FieldLookup
import HttpEngine.Proofs.Message.Framed
/-!
# What a response announces

The peer reads from a response whether the connection persists: from the version and the connection
field, by the rule by which requests are read. The connection itself goes by the choice that the
response carries. Framing brings the two together where the choice departs from the default of the
version; a connection field that disagrees is replaced there. Where the choice is the default, no
field is set and whatever field the response has is left alone
(`Response.announcedPersistence_framed`).

So the peer is told what happens, with one exception
(`Service.announcedPersistence_answer_iff`): a stage or the configuration has given the response a
connection field that departs from the default, and the choice does not. Such a response is sent as
it is, and the connection does not do what it announces (`Service.announces_close_and_persists`).
-/

namespace HttpEngine

open Connection Text

variable {γ : Type}

namespace Response

/-- What a framed response announces is its choice, unless that is the default of the version: then
it is what the response announces by itself. -/
theorem announcedPersistence_framed (r : Response) :
    r.framed.announcedPersistence =
      if r.persists = r.version.persists then r.announcedPersistence else r.persists := by
  have hlength : sameFolded "Content-Length" connectionName = false := by decide
  have hclose : ∀ fs : Fields, (fs.set connectionName "close").hasOption connectionName "close" :=
    fun _ => Fields.hasOption_set (by decide) (by decide)
  have hkeep : ∀ fs : Fields,
      (fs.set connectionName "keep-alive").hasOption connectionName "keep-alive" :=
    fun _ => Fields.hasOption_set (by decide) (by decide)
  have hpersists : (r.setField "Content-Length" (decimal r.body.length)).persists = r.persists :=
    rfl
  have hversion : (r.setField "Content-Length" (decimal r.body.length)).version = r.version := rfl
  rw [framed, announcePersistence, hpersists, hversion]
  -- in two of the cases a field is set, and in the other two the response keeps its own
  cases hv : r.version with
  | http10 =>
    cases hp : r.persists with
    | false =>
      simp [announcedPersistence, persistsBy, setField, hv, Fields.hasOption_set_of_ne hlength,
        Version.persists]
    | true => simp [announcedPersistence, persistsBy, setField, hv, hkeep, Version.persists]
  | http11 =>
    cases hp : r.persists with
    | false => simp [announcedPersistence, persistsBy, setField, hv, hclose, Version.persists]
    | true =>
      simp [announcedPersistence, persistsBy, setField, hv, Fields.hasOption_set_of_ne hlength,
        Version.persists]

end Response

namespace Service

/-- **When the peer is told what happens.** The answer to a request announces what it does to the
connection just if the response, where its choice is the default of its version, has no connection
field that departs from the default. And what it does is its choice: once the answer is sent, the
connection serves on if the answer persists, and otherwise closes. -/
theorem announcedPersistence_answer_iff (s : Service γ) (request : Request) :
    ((s.answer request).announcedPersistence = (s.answer request).persists ↔
        ((s.respond request).1.persists = (s.respond request).1.version.persists →
          (s.respond request).1.announcedPersistence = (s.respond request).1.version.persists)) ∧
      ∀ inbox link,
        let got : Reception γ := Reception.receive s.config inbox link
        let sent : Sending γ := send got.link (s.answer request).encode
        got.result = .request request → sent.result = .done →
          serveFrom s inbox link =
            got.trace ++ Trace.stamp got.link.now (s.respond request).2 ++ sent.trace ++
              if (s.answer request).persists then serveFrom s got.inbox sent.link
              else close sent.link := by
  constructor
  · rw [answer, Response.announcedPersistence_framed, Response.persists_framed]
    split_ifs with hdefault
    · rw [hdefault]
      exact ⟨fun h _ => h, fun h => h rfl⟩
    · exact iff_of_true rfl fun h => absurd h hdefault
  · intro inbox link got sent hgot hsent
    rw [serveFrom_of_request hgot]
    change _ ++ goOn s (s.answer request).persists got.inbox sent = _
    rw [goOn, hsent]

/-- A service whose one handler closes the connection by a field, and not by its choice. -/
def closingByField : Service Unit where
  table :=
    { routes := [⟨"/", .get,
        { handler := fun _ n => (.ok ((Response.ofStatus .ok).setField "Connection" "close"), n) }⟩] }
  context := .ok ()

/-- The first of two requests that come together is answered with the announcement that the
connection closes, and then the second is answered. -/
theorem announces_close_and_persists :
    let request : Request := { method := .get, target := "/", version := .http11, fields := ∅ }
    let stream := Utf8.bytesOf "GET / HTTP/1.1\r\n\r\nGET / HTTP/1.1\r\n\r\n"
    Decoding.ofBytes stream = .complete request 18 ∧
      (closingByField.answer request).announcedPersistence = false ∧
      (closingByField.answer request).persists = true ∧
      (serve closingByField { arrivals := [.data stream] }).written =
        (closingByField.answer request).encode ++ (closingByField.answer request).encode := by
  refine ⟨?_, ?_, ?_, ?_⟩
  · decide +kernel
  · decide +kernel
  · decide +kernel
  · decide +kernel

end Service

end HttpEngine
