import BlackBull.EffectOutcomes
import BlackBull.MqttPackets
import BlackBull.MqttTopics

/-!
# The MQTT broker: sessions, delivery and routing

The state of `BrokerActor` and the helpers its handlers share. A connection is named by a number,
which stands for the identity of its actor. What the broker puts into the inboxes is kept in the
order of the puts, and so are the calls of `_route`; a session is read and written back under its
client identifier.
-/

namespace BlackBull.Mqtt

abbrev Conn := ℕ

namespace ReasonCode

def success : ℕ := 0x00
def disconnectWithWill : ℕ := 0x04
def protocolError : ℕ := 0x82
def unsupportedProtocolVersion : ℕ := 0x84
def sessionTakenOver : ℕ := 0x8E
def topicFilterInvalid : ℕ := 0x8F
def topicNameInvalid : ℕ := 0x90
def quotaExceeded : ℕ := 0x97

end ReasonCode

inductive Outgoing
  | send (packet : Packet)
  | close (reasonCode : ℕ)
  deriving DecidableEq

structure Subscription where
  filter : Text
  qos : ℕ
  options : SubscriptionOptions
  deriving DecidableEq

/-- A delivery that waits for room in the client's Receive Maximum window. -/
structure Held where
  publish : MQTTPublish
  qos : ℕ
  retain : Bool
  deriving DecidableEq

inductive Qos2In
  | pubrecSent
  deriving DecidableEq

/-- The packet is kept for a replay until PUBREC has come. -/
inductive Qos2Out
  | publishSent (packet : MQTTPublish)
  | pubrelSent
  deriving DecidableEq

structure Session where
  subscriptions : List Subscription := []
  pendingQos1Out : Dict ℕ MQTTPublish := []
  pendingQos2In : Dict ℕ Qos2In := []
  pendingQos2Out : Dict ℕ Qos2Out := []
  outboundQueue : List Held := []
  receiveMaximum : ℕ := 65535
  expiry : ℕ := 0
  expiresAt : Option ℚ := none
  nextPid : ℕ := 0
  deriving DecidableEq

structure Limits where
  maxRetained : ℕ := 10000
  maxQueued : ℕ := 1000
  receiveMaximum : ℕ := 64
  maxPacketSize : ℕ := 1048576
  maxSubscriptions : ℕ := 1000
  maxSessions : ℕ := 10000

structure Broker where
  clients : Dict Text Conn := []
  clientByConn : Dict Conn Text := []
  sessions : Dict Text Session := []
  retained : Dict Text MQTTPublish := []
  wills : Dict Text MQTTPublish := []
  autoSeq : ℕ := 0
  shareRotation : Dict (Text × Text) ℕ := []
  /-- When the expiry timer is due. -/
  expiryTimer : Option ℚ := none
  /-- What was put into the inboxes of the connections. -/
  sent : List (Conn × Outgoing) := []
  /-- The calls of `_route`, with the connection that published. -/
  routed : List (MQTTPublish × Option Conn) := []
  deriving DecidableEq

abbrev Handler := EStateM Failure Broker

def send (conn : Conn) (outgoing : Outgoing) : Handler Unit :=
  modify fun s => {s with sent:=s.sent++[(conn,outgoing)]}

/-- The client that is attached on the connection, if it has a session. -/
def Broker.sessionFor (s : Broker) (conn : Conn) : Option (Text × Session) :=
  (s.clientByConn.get? conn).bind fun clientId =>
    (s.sessions.get? clientId).map fun session => (clientId,session)

def setSession (clientId : Text) (session : Session) : Handler Unit :=
  modify fun s => {s with sessions:=s.sessions.set clientId session}

/-- QoS 1 and 2 packets that are sent and not acknowledged. -/
def Session.inFlight (session : Session) : ℕ :=
  session.pendingQos1Out.length+session.pendingQos2Out.length

def Session.inUse (session : Session) : List ℕ :=
  session.pendingQos1Out.map Prod.fst++session.pendingQos2Out.map Prod.fst

/-- The loop of `_alloc_pid`. -/
def findPid (inUse : List ℕ) : ℕ → ℕ → Option ℕ
  | 0,_ => none
  | rounds+1,pid =>
    let pid := pid % 65535 + 1
    if pid∈inUse then findPid inUse rounds pid else some pid

def Session.allocPid (session : Session) : Option ℕ := findPid session.inUse 65535 session.nextPid

def storeRetained (limits : Limits) (publish : MQTTPublish) : Handler Bool := do
  let s ← get
  if publish.payload=[] then
    modify fun s => {s with retained:=s.retained.pop publish.topic}
    return true
  else if limits.maxRetained≠0 ∧ s.retained.get? publish.topic=none ∧
      s.retained.length ≥ limits.maxRetained then return false
  else
    modify fun s => {s with retained:=s.retained.set publish.topic publish}
    return true

def enqueueOutbound (limits : Limits) (clientId : Text) (session : Session)
    (publish : MQTTPublish) (qos : ℕ) (retain : Bool) : Handler Unit :=
  if limits.maxQueued≠0 ∧ session.outboundQueue.length ≥ limits.maxQueued then pure ()
  else setSession clientId
    {session with outboundQueue:=session.outboundQueue++[{publish,qos,retain}]}

def sendQos (conn : Conn) (clientId : Text) (session : Session) (publish : MQTTPublish) (qos : ℕ)
    (retain : Bool) : Handler Unit := do
  match session.allocPid with
  | none => throw (.runtimeError "No free MQTT packet identifier (65535 in flight)")
  | some packetId =>
    let session := {session with nextPid:=packetId}
    setSession clientId session
    let out ← MonadExcept.ofExcept (MQTTPublish.make
      { topic:=publish.topic,payload:=publish.payload,qos,packetId:=some packetId,retain
        properties:=publish.properties})
    if qos=1 then
      setSession clientId
        {session with pendingQos1Out:=session.pendingQos1Out.set packetId out}
    else
      setSession clientId
        {session with pendingQos2Out:=session.pendingQos2Out.set packetId (.publishSent out)}
    send conn (.send (.publish out))

def deliver (limits : Limits) (conn : Conn) (clientId : Text) (publish : MQTTPublish)
    (grantedQos : ℕ) (retain : Bool) : Handler Unit := do
  let qos := min publish.qos grantedQos
  if qos=0 then
    let out ← MonadExcept.ofExcept (MQTTPublish.make
      { topic:=publish.topic,payload:=publish.payload,qos:=0,retain
        properties:=publish.properties})
    send conn (.send (.publish out))
  else
    match (← get).sessions.get? clientId with
    | none => pure ()
    | some session =>
      if session.inFlight ≥ session.receiveMaximum then
        enqueueOutbound limits clientId session publish qos retain
      else sendQos conn clientId session publish qos retain

/-- The loop of `_drain_outbound`, over the messages that are held when it starts. -/
def drainHeld (conn : Conn) (clientId : Text) : List Held → Handler Unit
  | [] => pure ()
  | held::rest => do
    match (← get).sessions.get? clientId with
    | none => pure ()
    | some session =>
      if session.inFlight<session.receiveMaximum then
        let session := {session with outboundQueue:=rest}
        setSession clientId session
        sendQos conn clientId session held.publish held.qos held.retain
        drainHeld conn clientId rest

def drainOutbound (conn : Conn) : Handler Unit := do
  match (← get).sessionFor conn with
  | none => pure ()
  | some (clientId,session) => drainHeld conn clientId session.outboundQueue

structure Member where
  conn : Conn
  clientId : Text
  qos : ℕ
  options : SubscriptionOptions

abbrev ShareGroups := Dict (Text × Text) (List Member)

/-- What the subscriptions of one client say about a message: the QoS granted, whether the
publisher's RETAIN flag is forwarded, and the share groups so far. -/
structure Grant where
  granted : Option ℕ := none
  retainAsPublished : Bool := false
  groups : ShareGroups

def Grant.add (topic : Text) (source : Option Conn) (conn : Conn) (clientId : Text)
    (grant : Grant) (subscription : Subscription) : Grant :=
  if topicMatchesFilter topic subscription.filter then
    match parseShare subscription.filter with
    | some share =>
      let members := (grant.groups.get? share).getD []
      { grant with groups:=grant.groups.set share (members ++
          [{conn,clientId,qos:=subscription.qos,options:=subscription.options}])}
    | none =>
      if subscription.options.noLocal ∧ source=some conn then grant
      else
        {grant with
          granted:=some (match grant.granted with
            | none => subscription.qos
            | some granted => max granted subscription.qos)
          retainAsPublished:=grant.retainAsPublished || subscription.options.retainAsPublished}
  else grant

/-- The loop of `_route` over the connected clients. -/
def routeClients (limits : Limits) (publish : MQTTPublish) (source : Option Conn) :
    Dict Text Conn → ShareGroups → Handler ShareGroups
  | [],groups => pure groups
  | (clientId,conn)::clients,groups => do
    match (← get).sessions.get? clientId with
    | none => routeClients limits publish source clients groups
    | some session =>
      let grant := session.subscriptions.foldl (Grant.add publish.topic source conn clientId)
        {groups}
      match grant.granted with
      | none => pure ()
      | some granted =>
        deliver limits conn clientId publish granted (grant.retainAsPublished && publish.retain)
      routeClients limits publish source clients grant.groups

/-- The loop of `_route` over the share groups. -/
def routeGroups (limits : Limits) (publish : MQTTPublish) : ShareGroups → Handler Unit
  | [] => pure ()
  | (share,members)::groups => do
    let cursor := ((← get).shareRotation.get? share).getD 0 % members.length
    modify fun s => {s with shareRotation:=s.shareRotation.set share (cursor+1)}
    match members[cursor]? with
    | none => throw .indexError
    | some member =>
      deliver limits member.conn member.clientId publish member.qos
        (member.options.retainAsPublished && publish.retain)
      routeGroups limits publish groups

def route (limits : Limits) (publish : MQTTPublish) (source : Option Conn) : Handler Unit := do
  modify fun s => {s with routed:=s.routed++[(publish,source)]}
  let groups ← routeClients limits publish source (← get).clients []
  routeGroups limits publish groups

/-- Whether some session subscribes to the share group. -/
def Broker.shared (s : Broker) (share : Text × Text) : Bool :=
  s.sessions.any fun item =>
    item.2.subscriptions.any fun subscription => parseShare subscription.filter=some share

def pruneShareRotation (removed : List Text) : Handler Unit :=
  modify fun s =>
    let stale := (removed.filterMap parseShare).filter fun share => !s.shared share
    {s with shareRotation:=stale.foldl Dict.pop s.shareRotation}

def Broker.earliestDeadline (s : Broker) : Option ℚ :=
  (s.sessions.filterMap fun item => item.2.expiresAt).min?

def armExpiryTimer (now : ℚ) : Handler Unit :=
  modify fun s => {s with expiryTimer:=s.earliestDeadline.map (max now)}

def Broker.expired (s : Broker) (now : ℚ) : List Text :=
  (s.sessions.filter fun item => item.2.expiresAt.any (· ≤ now)).map Prod.fst

def dropSessions : List Text → Handler Unit
  | [] => pure ()
  | clientId::clientIds => do
    match (← get).sessions.get? clientId with
    | none => throw .keyError
    | some session =>
      modify fun s => {s with sessions:=s.sessions.pop clientId}
      pruneShareRotation (session.subscriptions.map Subscription.filter)
      dropSessions clientIds

def sweepExpired (now : ℚ) : Handler Unit := do
  dropSessions ((← get).expired now)
  armExpiryTimer now

end BlackBull.Mqtt
