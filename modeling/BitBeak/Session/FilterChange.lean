import BitBeak.Session.CaptureTab

/-! Changing the capture filter of a session. A text that is refused changes nothing; a running
capture that cannot be started again is lost, and the text is the new one. -/
namespace BitBeak.CaptureTab

variable {R : Type} (ips : IpText) (hint : String)
  (openLiveFiltered : String → Nat → Bool → Option CaptureFilter → Except OpenError Nat)

/-- An error leaves the text of the filter, and whether the capture is running, as they were. -/
def AtomicChange (tab : CaptureTab R) (q : String) : Prop :=
  ∀ e, (tab.setCaptureFilter ips hint openLiveFiltered q).2 = .error e →
    (tab.setCaptureFilter ips hint openLiveFiltered q).1.captureFilterStr = tab.captureFilterStr ∧
      (tab.setCaptureFilter ips hint openLiveFiltered q).1.capturing = tab.capturing

/-- A running capture whose device cannot be opened with the filter that the text is for. -/
def LosesCapture (tab : CaptureTab R) (q : String) : Prop :=
  tab.source = .live ∧ tab.capturing = true ∧ ∃ f e, parseCaptureFilter ips q = .ok f ∧
    openLiveFiltered tab.titleIface 65535 true (some f) = .error e

variable (tab : CaptureTab R) (q : String)

/-- A text that is refused. -/
theorem setCaptureFilter_refused (refused : tab.source = .file ∨
    ∃ e, parseCaptureFilter ips q = .error e) :
    ∃ e, tab.setCaptureFilter ips hint openLiveFiltered q = (tab, .error e) := by
  unfold setCaptureFilter
  split
  · exact ⟨_, rfl⟩
  · next live =>
    obtain ⟨e, wrong⟩ := refused.resolve_left live
    rw [wrong]
    exact ⟨_, rfl⟩

/-- Without a running capture the text is stored, and nothing else happens. -/
theorem setCaptureFilter_idle (live : tab.source = .live) (idle : tab.capturing = false)
    {f : CaptureFilter} (parsed : parseCaptureFilter ips q = .ok f) :
    tab.setCaptureFilter ips hint openLiveFiltered q
      = ({ tab with captureFilterStr := q }, .ok ()) := by
  simp [setCaptureFilter, live, idle, parsed]

/-- A running capture is started again when its device can be opened. -/
theorem setCaptureFilter_restarted (live : tab.source = .live) (running : tab.capturing = true)
    {f : CaptureFilter} (parsed : parseCaptureFilter ips q = .ok f) {c : Nat}
    (opened : openLiveFiltered tab.titleIface 65535 true (some f) = .ok c) :
    (tab.setCaptureFilter ips hint openLiveFiltered q).2 = .ok () := by
  simp [setCaptureFilter, stopCapture, startCapture, live, running, parsed, opened]

/-- A running capture is lost when its device cannot be opened. -/
theorem setCaptureFilter_lost (live : tab.source = .live) (running : tab.capturing = true)
    {f : CaptureFilter} (parsed : parseCaptureFilter ips q = .ok f) {e : OpenError}
    (closed : openLiveFiltered tab.titleIface 65535 true (some f) = .error e) :
    (tab.setCaptureFilter ips hint openLiveFiltered q).2 = .error e.text ∧
      (tab.setCaptureFilter ips hint openLiveFiltered q).1.captureFilterStr = q ∧
      (tab.setCaptureFilter ips hint openLiveFiltered q).1.capturing = false := by
  simp [setCaptureFilter, stopCapture, startCapture, live, running, parsed, closed]

/-- Text and capture are kept on every error, but where a running capture cannot be started
again. -/
theorem filter_change_atomic :
    tab.AtomicChange ips hint openLiveFiltered q ↔ ¬ tab.LosesCapture ips openLiveFiltered q := by
  constructor
  · rintro atomic ⟨live, running, f, e, parsed, closed⟩
    obtain ⟨failed, _, stopped⟩ :=
      setCaptureFilter_lost ips hint openLiveFiltered tab q live running parsed closed
    have kept := (atomic _ failed).2
    rw [stopped, running] at kept
    cases kept
  · intro keeps e failed
    cases source : tab.source with
    | file =>
      obtain ⟨_, same⟩ := setCaptureFilter_refused ips hint openLiveFiltered tab q (.inl source)
      rw [same]
      exact ⟨rfl, rfl⟩
    | live =>
      cases parsed : parseCaptureFilter ips q with
      | error wrong =>
        obtain ⟨_, same⟩ := setCaptureFilter_refused ips hint openLiveFiltered tab q
          (.inr ⟨wrong, parsed⟩)
        rw [same]
        exact ⟨rfl, rfl⟩
      | ok f =>
        cases running : tab.capturing with
        | false =>
          rw [setCaptureFilter_idle ips hint openLiveFiltered tab q source running parsed] at failed
          cases failed
        | true =>
          cases answer : openLiveFiltered tab.titleIface 65535 true (some f) with
          | ok c =>
            rw [setCaptureFilter_restarted ips hint openLiveFiltered tab q source running parsed
              answer] at failed
            cases failed
          | error closed => exact absurd ⟨source, running, f, closed, parsed, answer⟩ keeps

/-- A capture of everything that runs on a device. -/
def runningTab : CaptureTab Unit :=
  { newLive "" "eth0" 10 0 with
    capturing := true, packetRx := some 0, stopTx := some 0, join := some 0, injectTx := some 0 }

def noAddresses : IpText where
  parseIp _ := none
  parseIpv4 _ := none
  ipText _ := ""
  ipv4Text _ := ""

def unplugged : String → Nat → Bool → Option CaptureFilter → Except OpenError Nat :=
  fun _ _ _ _ => .error { text := "no device", chain := "no device" }

/-- The device went away while the capture was running. -/
theorem filter_change_loses_capture :
    (runningTab.setCaptureFilter noAddresses "" unplugged "tcp").2 = .error "no device" ∧
      (runningTab.setCaptureFilter noAddresses "" unplugged "tcp").1.captureFilterStr = "tcp" ∧
      ¬ runningTab.AtomicChange noAddresses "" unplugged "tcp" := by
  have parsed : parseCaptureFilter noAddresses "tcp" = .ok (.proto "tcp") := by decide +kernel
  obtain ⟨failed, stored, stopped⟩ :=
    setCaptureFilter_lost noAddresses "" unplugged runningTab "tcp" rfl rfl parsed rfl
  refine ⟨failed, stored, fun atomic => ?_⟩
  have kept := (atomic _ failed).2
  rw [stopped] at kept
  cases kept

end BitBeak.CaptureTab
