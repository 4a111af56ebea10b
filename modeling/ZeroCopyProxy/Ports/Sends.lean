import ZeroCopyProxy.Ports.ProxyRelay

/-!
# What sending keeps

The senders do not touch the receiving flags of a message, and the only calls
they make are a `write` of the header and a `splice` out of the pipe.  So what
looks at a message through its receiving flags alone, and is kept by these two
calls, is kept by everything `proxy_process_data` does behind its receive but
the clearing of a message that has been sent.
-/

namespace ZeroCopyProxy.Ports.Sends

open ZeroCopyProxy.Verified.Resumption
open ZeroCopyProxy.Verified.Liberal
open ZeroCopyProxy.Ports.Posix
open ZeroCopyProxy.Ports.TranscHeader
open ZeroCopyProxy.Ports.ProxyRelay

variable {W : Type} {K : W → Transc → SysCall → Answer → W → Prop}
  {P : W → Transc → SysCall → Prop} {I : W → Transc → Prop} {peer : Int} {pipe : Pipe}

/-- Of a message only the receiving flags are looked at. -/
def SeesReceived (I : W → Transc → Prop) : Prop :=
  ∀ ⦃w t t'⦄, I w t → t'.isRecvHeader = t.isRecvHeader → t'.isRecvBody = t.isRecvBody →
    I w t'

/-- The calls with this property may be made, and keep the invariant. -/
def KeptBy (K : W → Transc → SysCall → Answer → W → Prop) (P : W → Transc → SysCall → Prop)
    (I : W → Transc → Prop) (A : SysCall → Prop) : Prop :=
  ∀ w t op, A op → I w t → P w t op ∧ ∀ r w', K w t op r w' → I w' t

/-- Writing a header to this descriptor. -/
def WritesHeader (peer : Int) : SysCall → Prop
  | .write fd .hdr _ _ => fd = peer
  | _ => False

/-- What an event does behind its receive. -/
def forwardRest (pipe : Pipe) (peer : Int) : Prog Transc SysCall Answer Unit := do
  let _ ← forwardSend (some pipe) peer
  let _ ← forwardResend (some pipe) peer
  forwardClear

/-- An event is a receive and the rest. -/
theorem wlp_forward {Q : W → Transc → Prop} {fd : Int} {t : Transc} {w : W} :
    wlp K P (fun w' t' _ => Q w' t') (forward fd (some pipe) peer t) w ↔
      wlp K P (fun w₁ t₁ _ => wlp K P (fun w' t' _ => Q w' t') (forwardRest pipe peer t₁) w₁)
        (forwardRecv fd (some pipe) t) w := by
  simp only [forward, forwardRest, wlp_bind, wlp_pure]

/-- A call of the senders. -/
def SendsTo (pipe : Pipe) (peer : Int) : SysCall → Prop
  | .write fd .hdr _ _ => fd = peer
  | .spliceOut p fd _ => p = pipe ∧ fd = peer
  | _ => False

theorem KeptBy.mono {A B : SysCall → Prop} (h : KeptBy K P I B) (hAB : ∀ op, A op → B op) :
    KeptBy K P I A :=
  fun w t op hop => h w t op (hAB op hop)

theorem keeps_prepareHeader (hI : SeesReceived I) : Keeps K P I prepareHeader := by
  have hfill : ∀ o : Option (Buf 20), Keeps K P I (do
      let b ← Prog.orFault o
      Prog.update fun t => { t with writeHdrBuf := b }
      pure (none : Option Int)) := fun o =>
    keeps_orFault_bind fun b => keeps_update_bind (fun _ _ h => hI h rfl rfl) (keeps_pure _)
  refine keeps_state_bind fun t => keeps_ite ?_ (keeps_pure _)
  refine keeps_update_bind (fun _ _ h => hI h rfl rfl) (keeps_state_bind fun t => ?_)
  exact keeps_ite (hfill _) (keeps_ite (hfill _) (keeps_pure _))

theorem keeps_writeHeader (hI : SeesReceived I) (hcalls : KeptBy K P I (WritesHeader peer)) :
    Keeps K P I (writeHeader peer) := by
  refine keeps_state_bind fun t => ?_
  have hwrite : Keeps K P I (sysWrite peer .hdr t.writeHdrBuf.bytes (20 - t.sendBytes)) := by
    apply keeps_sysWrite
    · intro w t h
      exact (hcalls w t (.write peer .hdr _ _) rfl h).1
    · intro w t r w' h hk
      exact (hcalls w t (.write peer .hdr _ _) rfl h).2 r w' hk
  apply hwrite.bind
  refine fun r => keeps_ite (keeps_pure _) ?_
  refine keeps_update_bind (fun _ _ h => hI h rfl rfl) (keeps_state_bind fun t => ?_)
  exact keeps_ite (keeps_update_bind (fun _ _ h => hI h rfl rfl) (keeps_pure _)) (keeps_pure _)

theorem keeps_sendHeader (hI : SeesReceived I) (hcalls : KeptBy K P I (WritesHeader peer)) :
    Keeps K P I (sendHeader peer) := by
  apply (keeps_prepareHeader hI).bind
  intro rv
  cases rv with
  | some c => exact keeps_pure _
  | none => exact keeps_writeHeader hI hcalls

section Proxy

variable (hI : SeesReceived I) (hcalls : KeptBy K P I (SendsTo pipe peer))
include hI hcalls

theorem keeps_sendBody : Keeps K P I (sendBody pipe peer) := by
  refine keeps_state_bind fun t => keeps_ite ?_ (keeps_pure _)
  have hsplice : Keeps K P I
      (Prog.call (.spliceOut pipe peer t.recvBytes) : Prog Transc SysCall Answer Answer) := by
    apply keeps_call
    · intro w t h
      exact (hcalls w t (.spliceOut pipe peer _) ⟨rfl, rfl⟩ h).1
    · intro w t r w' h hk
      exact (hcalls w t (.spliceOut pipe peer _) ⟨rfl, rfl⟩ h).2 r w' hk
  apply hsplice.bind
  refine fun r => keeps_ite (keeps_pure _) ?_
  refine keeps_update_bind (fun _ _ h => hI h rfl rfl) (keeps_state_bind fun t => ?_)
  exact keeps_ite (keeps_update_bind (fun _ _ h => hI h rfl rfl) (keeps_pure _)) (keeps_pure _)

theorem keeps_proxySendData : Keeps K P I (proxySendData (some pipe) peer) := by
  have hheader : KeptBy K P I (WritesHeader peer) := by
    apply hcalls.mono
    intro op hop
    cases op with
    | write fd area buf count =>
        cases area with
        | hdr => exact hop
        | body => exact hop
    | read | spliceIn | spliceOut | close | getsockopt | epollWait => exact hop.elim
  have hbody := keeps_sendBody hI hcalls
  refine keeps_ite (keeps_pure _) (keeps_state_bind fun t => keeps_ite ?_ ?_)
  · apply (keeps_sendHeader hI hheader).bind
    intro rv
    cases rv with
    | some c => exact keeps_pure _
    | none => exact hbody
  · exact keeps_ite (keeps_pure _) hbody

theorem keeps_forwardSend : Keeps K P I (forwardSend (some pipe) peer) := by
  refine keeps_state_bind fun t => keeps_ite ?_ (keeps_pure _)
  exact (keeps_proxySendData hI hcalls).bind fun _ => keeps_pure _

theorem keeps_forwardResend : Keeps K P I (forwardResend (some pipe) peer) := by
  refine keeps_state_bind fun t => keeps_ite ?_ (keeps_pure _)
  exact (keeps_proxySendData hI hcalls).bind fun _ => keeps_pure _

/-- Behind its receive an event keeps what the senders and the clearing of a
message keep. -/
theorem keeps_forwardRest (hclear : ∀ w t, I w t → I w cleared) :
    Keeps K P I (forwardRest pipe peer) := by
  apply (keeps_forwardSend hI hcalls).bind
  intro _
  apply (keeps_forwardResend hI hcalls).bind
  intro _
  refine keeps_state_bind fun t => keeps_ite ?_ (keeps_pure _)
  exact fun w t h => hclear w t h

end Proxy

end ZeroCopyProxy.Ports.Sends
