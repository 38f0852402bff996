import HttpEngine.Connection.Receive
import HttpEngine.Connection.Service
/-!
# Serving a connection

A connection is served request by request: receive one, answer it, write the answer, and begin
again. It ends when the peer closes, when receiving or writing fails or is cancelled, or after a
response that does not persist; and however it ends, closing the write side is the last thing it
does. Only a write that blocks for ever, with no stop to cancel it, keeps it from ending.

Serving ends because each request uses up at least one of the bytes that are buffered or are
still to arrive.
-/

namespace HttpEngine

/-- What comes of writing a response, and the connection afterwards. -/
structure Sending (γ : Type) where
  result : Link.WriteResult
  link : Link
  trace : Trace γ

namespace Connection

variable {γ : Type}

/-- Writes a response as a whole and flushes it, unless a stop is due and goes first. -/
def send (link : Link) (bytes : List UInt8) : Sending γ :=
  if link.cancels link.writeTie then ⟨.stopped, link, []⟩
  else
    match link.writeAll bytes with
    | (.done, pieces, later) =>
      ⟨if later.flushFails then .failed .connectionAborted else .done, later,
        Trace.stamp link.now (pieces.map .wrote ++ [.flushed])⟩
    | (result, pieces, later) => ⟨result, later, Trace.stamp link.now (pieces.map .wrote)⟩

/-- Closes the write side. -/
def close (link : Link) : Trace γ :=
  Trace.stamp link.now
    (if link.closeFails then [.closed, .noted (.closeFailed .notConnected)] else [.closed])

/-- Leaves a note and closes the write side. -/
def closeNoting (link : Link) (note : Note) : Trace γ := (link.now, .noted note) :: close link

/-- Closes a connection that has received no request, telling why. -/
def closeAfter (config : Config) (link : Link) : Received → Trace γ
  | .request _ => close link
  | .closed => closeNoting link .closedByPeer
  | .failed cause => closeNoting link (.readFailed cause)
  | .late => closeNoting link (.noRequestWithin config.requestTimeout)
  | .stopped => closeNoting link .readCancelled

theorem toArrive_send (link : Link) (bytes : List UInt8) :
    (send (γ := γ) link bytes).link.toArrive = link.toArrive := by
  unfold send
  split
  · rfl
  · have h := link.toArrive_writeAll bytes
    split
    · next heq => rw [heq] at h; exact h
    · next heq => rw [heq] at h; exact h

/-- Serves a connection from a state in which it waits for a request. -/
def serveFrom (s : Service γ) (inbox : Inbox) (link : Link) : Trace γ :=
  let got : Reception γ := Reception.receive s.config inbox link
  match _h : got.result with
  | .request request =>
    let response := s.answer request
    let sent : Sending γ := send got.link response.encode
    got.trace ++ Trace.stamp got.link.now (s.respond request).2 ++ sent.trace ++
      match sent.result with
      | .done => if response.persists then serveFrom s got.inbox sent.link else close sent.link
      | .failed cause => closeNoting sent.link (.writeFailed cause)
      | .stopped => closeNoting sent.link .writeCancelled
      | .blocked => []
  | result => got.trace ++ closeAfter s.config got.link result
termination_by Reception.outstanding inbox link
decreasing_by
  have hlt := Reception.outstanding_receive _h
  have hsend := toArrive_send (γ := γ) got.link response.encode
  simp only [Reception.outstanding] at hlt ⊢
  rw [hsend]
  exact hlt

/-- Serves a connection. -/
def serve (s : Service γ) (link : Link) : Trace γ := serveFrom s {} link

end Connection

end HttpEngine
