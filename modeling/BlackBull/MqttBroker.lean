import BlackBull.MqttDelivery

/-!
# The MQTT broker: handlers

`BrokerActor` takes one message at a time from its inbox, and `Actor.run` does not
catch what a handler raises. The loop's clock is read once per message.
-/

namespace BlackBull.Mqtt

inductive Message
  | attach (connect : MQTTConnect)
  | clientSubscribe (subscribe : MQTTSubscribe)
  | clientUnsubscribe (unsubscribe : MQTTUnsubscribe)
  | clientPublish (publish : MQTTPublish)
  | clientPuback (packetId : ℕ)
  | clientPubrec (packetId : ℕ)
  | clientPubrel (packetId : ℕ)
  | clientPubcomp (packetId : ℕ)
  | detach (graceful : Bool) (sessionExpiryInterval : Option ℕ)
  | sweepExpired
  deriving DecidableEq

def connackProperties (limits : Limits) : Properties :=
  (if limits.maxPacketSize≠0 then [(.maximumPacketSize,.number limits.maxPacketSize)] else []) ++
    (if limits.receiveMaximum≠0 then [(.receiveMaximum,.number limits.receiveMaximum)] else [])

def replayQos1 (conn : Conn) : Dict ℕ MQTTPublish → Handler Unit
  | [] => pure ()
  | (_,pending)::rest => do
    let packet ← MonadExcept.ofExcept
      (MQTTPublish.make {pending.toPublishFields with dup:=true})
    send conn (.send (.publish packet))
    replayQos1 conn rest

def replayQos2 (conn : Conn) : Dict ℕ Qos2Out → Handler Unit
  | [] => pure ()
  | (packetId,entry)::rest => do
    match entry with
    | .publishSent publish =>
      let packet ← MonadExcept.ofExcept
        (MQTTPublish.make {publish.toPublishFields with dup:=true})
      send conn (.send (.publish packet))
    | .pubrelSent => send conn (.send (.pubrel {packetId,reasonCode:=ReasonCode.success}))
    replayQos2 conn rest

def replayPending (conn : Conn) (session : Session) : Handler Unit := do
  replayQos1 conn session.pendingQos1Out
  replayQos2 conn session.pendingQos2Out

def Broker.full (s : Broker) (limits : Limits) (clientId : Text) : Bool :=
  limits.maxSessions≠0 && s.sessions.get? clientId=none &&
    limits.maxSessions ≤ s.sessions.length

def refuseConnect (conn : Conn) (reasonCode : ℕ) : Handler Unit := do
  send conn (.send (.connack {sessionPresent:=false,reasonCode}))
  send conn (.close reasonCode)

def takeOver (conn : Conn) (clientId : Text) : Handler Unit := do
  match (← get).clients.get? clientId with
  | none => pure ()
  | some existing =>
    if existing≠conn then
      modify fun s => {s with clientByConn:=s.clientByConn.pop existing}
      send existing (.send (.disconnect {reasonCode:=some ReasonCode.sessionTakenOver}))
      send existing (.close ReasonCode.sessionTakenOver)

def willFields (connect : MQTTConnect) (topic : Text) : PublishFields :=
  { topic,payload:=connect.willPayload.getD [],qos:=connect.willQos
    -- Only a placeholder: an identifier is allocated for each subscriber.
    packetId:=if connect.willQos > 0 then some 1 else none
    retain:=connect.willRetain,properties:=connect.willProperties}

def registerWill (clientId : Text) (connect : MQTTConnect) : Handler Unit :=
  match connect.willTopic with
  | some topic => do
    let will ← MonadExcept.ofExcept (MQTTPublish.make (willFields connect topic))
    modify fun s => {s with wills:=s.wills.set clientId will}
  | none => modify fun s => {s with wills:=s.wills.pop clientId}

def Broker.resume (s : Broker) (clientId : Text) (connect : MQTTConnect) : Session × Bool :=
  match s.sessions.get? clientId with
  | some existing => if connect.cleanStart then ({},false) else (existing,true)
  | none => ({},false)

/-- A Receive Maximum that is absent or zero leaves the window as it was. -/
def declaredWindow (connect : MQTTConnect) (window : ℕ) : ℕ :=
  match connect.properties.number? .receiveMaximum with
  | some declared => if declared≠0 then declared else window
  | none => window

/-- The session of a CONNECT: the away-clock stops. -/
def Broker.startedSession (s : Broker) (clientId : Text) (connect : MQTTConnect) : Session :=
  let session := (s.resume clientId connect).1
  {session with
    expiry:=(connect.properties.number? .sessionExpiryInterval).getD 0,expiresAt:=none
    receiveMaximum:=declaredWindow connect session.receiveMaximum}

def acceptedConnack (limits : Limits) (sessionPresent : Bool) : MQTTConnack :=
  {sessionPresent,reasonCode:=ReasonCode.success,properties:=connackProperties limits}

/-- `_on_attach` from the session on. -/
def startSession (limits : Limits) (conn : Conn) (now : ℚ) (clientId : Text)
    (connect : MQTTConnect) : Handler Unit := do
  let s ← get
  let sessionPresent := (s.resume clientId connect).2
  setSession clientId (s.startedSession clientId connect)
  armExpiryTimer now
  send conn (.send (.connack (acceptedConnack limits sessionPresent)))
  if sessionPresent then replayPending conn (s.startedSession clientId connect)

/-- `_on_attach` from the registration on. -/
def acceptConnect (limits : Limits) (conn : Conn) (now : ℚ) (clientId : Text)
    (connect : MQTTConnect) : Handler Unit := do
  takeOver conn clientId
  modify fun s => {s with
    clients:=s.clients.set clientId conn,clientByConn:=s.clientByConn.set conn clientId}
  registerWill clientId connect
  startSession limits conn now clientId connect

def assignClientId (connect : MQTTConnect) : Handler Text := do
  if connect.clientId=[] then
    modify fun s => {s with autoSeq:=s.autoSeq+1}
    return "auto-".toList++(toString (← get).autoSeq).toList
  else return connect.clientId

def onAttach (limits : Limits) (conn : Conn) (now : ℚ) (connect : MQTTConnect) :
    Handler Unit := do
  if connect.protoLevel≠5 then refuseConnect conn ReasonCode.unsupportedProtocolVersion
  else
    let clientId ← assignClientId connect
    sweepExpired now
    if (← get).full limits clientId then refuseConnect conn ReasonCode.quotaExceeded
    else acceptConnect limits conn now clientId connect

def deliverRetained (limits : Limits) (conn : Conn) (clientId filter : Text) (qos : ℕ) :
    Dict Text MQTTPublish → Handler Unit
  | [] => pure ()
  | (topic,retained)::rest => do
    if topicMatchesFilter topic filter then deliver limits conn clientId retained qos true
    deliverRetained limits conn clientId filter qos rest

/-- The loop of `_on_subscribe` with the options that are left; without an answer when the
connection is closed. -/
def subscribeEach (limits : Limits) (conn : Conn) (clientId : Text) :
    List (Text × ℕ) → List SubscriptionOptions → List ℕ → Handler (Option (List ℕ))
  | [],_,reasonCodes => pure (some reasonCodes)
  | (filter,qos)::subscriptions,options,reasonCodes => do
    let continueWith (reasonCode : ℕ) :=
      subscribeEach limits conn clientId subscriptions options.tail (reasonCodes++[reasonCode])
    if !validFilter filter then continueWith ReasonCode.topicFilterInvalid
    else
      let opts := options.head?.getD {}
      let share := parseShare filter
      if share.isSome ∧ opts.noLocal then
        send conn (.send (.disconnect {reasonCode:=some ReasonCode.protocolError}))
        send conn (.close ReasonCode.protocolError)
        return none
      else
        match (← get).sessions.get? clientId with
        | none => return none
        | some session =>
          let existed := session.subscriptions.any fun s => s.filter=filter
          if limits.maxSubscriptions≠0 ∧ !existed ∧
              session.subscriptions.length ≥ limits.maxSubscriptions then
            continueWith ReasonCode.quotaExceeded
          else
            setSession clientId {session with
              subscriptions:=session.subscriptions.filter (fun s => s.filter≠filter) ++
                [{filter,qos,options:={opts with qos}}]}
            if share=none ∧ opts.retainHandling≠2 ∧ ¬ (opts.retainHandling=1 ∧ existed) then
              deliverRetained limits conn clientId filter qos (← get).retained
            continueWith qos

def onSubscribe (limits : Limits) (conn : Conn) (subscribe : MQTTSubscribe) : Handler Unit := do
  match (← get).sessionFor conn with
  | none => pure ()
  | some (clientId,_) =>
    match ← subscribeEach limits conn clientId subscribe.subscriptions
        (subscribe.subscriptionOptions.getD []) [] with
    | none => pure ()
    | some reasonCodes =>
      send conn (.send (.suback {packetId:=subscribe.packetId,reasonCodes}))

def onUnsubscribe (conn : Conn) (unsubscribe : MQTTUnsubscribe) : Handler Unit := do
  match (← get).sessionFor conn with
  | none => pure ()
  | some (clientId,session) =>
    setSession clientId {session with
      subscriptions:=session.subscriptions.filter fun s => s.filter∉unsubscribe.topics}
    pruneShareRotation unsubscribe.topics
    send conn (.send (.unsuback
      { packetId:=unsubscribe.packetId
        reasonCodes:=unsubscribe.topics.map fun _ => ReasonCode.success}))

/-- The answer is false for a packet identifier that was already accepted. -/
def qos2AcceptInbound (conn : Conn) (packetId : ℕ) : Handler Bool := do
  match (← get).sessionFor conn with
  | none => return true
  | some (clientId,session) =>
    if (session.pendingQos2In.get? packetId).isSome then return false
    else
      setSession clientId
        {session with pendingQos2In:=session.pendingQos2In.set packetId .pubrecSent}
      return true

def rejectPublish (conn : Conn) (publish : MQTTPublish) (reasonCode : ℕ) : Handler Unit := do
  let packetId := publish.packetId.getD 0
  if publish.qos=1 then send conn (.send (.puback {packetId,reasonCode}))
  else if publish.qos=2 then send conn (.send (.pubrec {packetId,reasonCode}))
  else
    send conn (.send (.disconnect {reasonCode:=some reasonCode}))
    send conn (.close reasonCode)

/-- `_on_publish` of a valid topic name, once the retained message is dealt with. -/
def acknowledgeAndRoute (limits : Limits) (conn : Conn) (publish : MQTTPublish)
    (reasonCode : ℕ) : Handler Unit := do
  let packetId := publish.packetId.getD 0
  if publish.qos=1 then
    send conn (.send (.puback {packetId,reasonCode}))
    route limits publish (some conn)
  else if publish.qos=2 then
    send conn (.send (.pubrec {packetId,reasonCode}))
    if ← qos2AcceptInbound conn packetId then route limits publish (some conn)
  else route limits publish (some conn)

def onPublish (limits : Limits) (conn : Conn) (publish : MQTTPublish) : Handler Unit := do
  if validateTopicName publish.topic then
    let stored ← if publish.retain then storeRetained limits publish else pure true
    acknowledgeAndRoute limits conn publish
      (if stored then ReasonCode.success else ReasonCode.quotaExceeded)
  else rejectPublish conn publish ReasonCode.topicNameInvalid

def updateSessionFor (conn : Conn) (f : Session → Session) : Handler Unit := do
  match (← get).sessionFor conn with
  | none => pure ()
  | some (clientId,session) => setSession clientId (f session)

def onPuback (conn : Conn) (packetId : ℕ) : Handler Unit := do
  updateSessionFor conn fun session =>
    {session with pendingQos1Out:=session.pendingQos1Out.pop packetId}
  drainOutbound conn

def onPubcomp (conn : Conn) (packetId : ℕ) : Handler Unit := do
  updateSessionFor conn fun session =>
    {session with pendingQos2Out:=session.pendingQos2Out.pop packetId}
  drainOutbound conn

def onPubrel (conn : Conn) (packetId : ℕ) : Handler Unit := do
  send conn (.send (.pubcomp {packetId,reasonCode:=ReasonCode.success}))
  updateSessionFor conn fun session =>
    {session with pendingQos2In:=session.pendingQos2In.pop packetId}

def onPubrec (conn : Conn) (packetId : ℕ) : Handler Unit := do
  send conn (.send (.pubrel {packetId,reasonCode:=ReasonCode.success}))
  updateSessionFor conn fun session =>
    {session with pendingQos2Out:=session.pendingQos2Out.set packetId .pubrelSent}

def expiryNever : ℕ := 0xFFFFFFFF

def publishWill (limits : Limits) (will : MQTTPublish) : Handler Unit := do
  if will.retain then
    let _ ← storeRetained limits will
  route limits will none

/-- The end of `_on_detach`: the session is dropped, or outlives the connection. -/
def leaveSession (now : ℚ) (clientId : Text) (sessionExpiryInterval : Option ℕ) :
    Handler Unit := do
  match (← get).sessions.get? clientId with
  | none => pure ()
  | some session =>
    -- A DISCONNECT cannot resurrect a session that was declared with no expiry.
    let declared :=
      if session.expiry > 0 then sessionExpiryInterval.getD session.expiry else session.expiry
    if declared=0 then
      modify fun s => {s with sessions:=s.sessions.pop clientId}
      pruneShareRotation (session.subscriptions.map Subscription.filter)
      armExpiryTimer now
    else
      setSession clientId {session with
        expiry:=declared
        expiresAt:=if declared=expiryNever then session.expiresAt else some (now+declared)}
      if declared≠expiryNever then armExpiryTimer now

/-- The live connection is dropped first, so that a Will is not sent to it. -/
def forgetConn (conn : Conn) (clientId : Text) : Handler Unit := do
  modify fun s => {s with clientByConn:=s.clientByConn.pop conn}
  if (← get).clients.get? clientId=some conn then
    modify fun s => {s with clients:=s.clients.pop clientId}

/-- The Will is taken out of the table, and published unless the client left gracefully. -/
def takeWill (limits : Limits) (clientId : Text) (graceful : Bool) : Handler Unit := do
  let will := (← get).wills.get? clientId
  modify fun s => {s with wills:=s.wills.pop clientId}
  match will with
  | none => pure ()
  | some will => if !graceful then publishWill limits will

def onDetach (limits : Limits) (conn : Conn) (now : ℚ) (graceful : Bool)
    (sessionExpiryInterval : Option ℕ) : Handler Unit := do
  match (← get).clientByConn.get? conn with
  | none => pure ()
  | some clientId =>
    forgetConn conn clientId
    takeWill limits clientId graceful
    leaveSession now clientId sessionExpiryInterval

def handle (limits : Limits) (conn : Conn) (now : ℚ) : Message → Handler Unit
  | .attach connect => onAttach limits conn now connect
  | .clientPublish publish => onPublish limits conn publish
  | .clientSubscribe subscribe => onSubscribe limits conn subscribe
  | .clientUnsubscribe unsubscribe => onUnsubscribe conn unsubscribe
  | .clientPubrel packetId => onPubrel conn packetId
  | .clientPubrec packetId => onPubrec conn packetId
  | .clientPubcomp packetId => onPubcomp conn packetId
  | .clientPuback packetId => onPuback conn packetId
  | .detach graceful sessionExpiryInterval =>
    onDetach limits conn now graceful sessionExpiryInterval
  | .sweepExpired => sweepExpired now

/-- `MQTT5Actor._forward`: the message a decoded packet becomes. PINGREQ and AUTH are answered by
the connection itself, and the packets of a server are ignored. -/
def forward : Packet → Option Message
  | .connect m => some (.attach m)
  | .publish m => some (.clientPublish m)
  | .subscribe m => some (.clientSubscribe m)
  | .unsubscribe m => some (.clientUnsubscribe m)
  | .puback m => some (.clientPuback m.packetId)
  | .pubrec m => some (.clientPubrec m.packetId)
  | .pubrel m => some (.clientPubrel m.packetId)
  | .pubcomp m => some (.clientPubcomp m.packetId)
  | .disconnect m => some (.detach (m.reasonCode≠some ReasonCode.disconnectWithWill)
      (m.properties.number? .sessionExpiryInterval))
  | .connack _ | .suback _ | .unsuback _ | .pingreq | .pingresp | .auth _ => none

/-- What can put a message into the broker's inbox: octets that a connection decodes, the end of
a connection, and the expiry timer. -/
inductive Arrival
  | octets (conn : Conn) (data : Bytes)
  | ended (conn : Conn) (graceful : Bool)
  | timer

def Arrival.message : Arrival → Option (Conn × Message)
  | octets conn data =>
    match decodePacket data with
    | .ok (packet,_) => (forward packet).map fun message => (conn,message)
    | .error _ => none
  | ended conn graceful => some (conn,.detach graceful none)
  | timer => some (0,.sweepExpired)

/-- Octets that do not decode put nothing into the inbox. -/
def receive (limits : Limits) (arrival : Arrival × ℚ) : Handler Unit :=
  match arrival.1.message with
  | some (conn,message) => handle limits conn arrival.2 message
  | none => pure ()

/-- `Actor.run` over the messages of the inbox: nothing catches an exception. -/
def runActor (limits : Limits) : List (Arrival × ℚ) → Handler Unit
  | [] => pure ()
  | arrival::arrivals => do
    receive limits arrival
    runActor limits arrivals

end BlackBull.Mqtt
