import Domoticz.Web.FieldFilter
import Domoticz.Web.RestRoute
import Domoticz.Web.HandleRequest
import Domoticz.Web.SessionStore
import Domoticz.Web.Push
import Domoticz.Web.Drain
import Domoticz.Web.LocalNetworks
import Domoticz.Web.RowCounts
import Domoticz.Web.Containment
import Domoticz.Web.ReplyFraming
import Domoticz.Web.Pipelining
import Domoticz.Plugin.MqttPacket
import Domoticz.Plugin.WebSocket
import Domoticz.Plugin.HttpFraming
import Domoticz.Plugin.MqttViolation
import Domoticz.Plugin.MqttPublish
import Domoticz.Plugin.MqttClient
import Domoticz.Plugin.WebSocketOutbound
import Domoticz.Plugin.JsonStream
import Domoticz.Plugin.XmlStream
import Domoticz.Plugin.Configuration
import Domoticz.Plugin.DelayedOrder
import Domoticz.Plugin.Reconnect
import Domoticz.Plugin.DictionaryKeys
import Domoticz.Plugin.Registration
import Domoticz.Plugin.Restart
import Domoticz.Plugin.Disconnects
import Domoticz.Plugin.Targets
import Domoticz.Main.ValueHistory
import Domoticz.Plugin.LineSplit
import Domoticz.Web.Subscriptions
import Domoticz.Main.UpdatePublisher
import Domoticz.Plugin.TcpDisconnect
import Domoticz.Plugin.HttpExtraction
import Domoticz.Plugin.HttpHeaders
import Domoticz.Web.Revocation
import Domoticz.Web.Renewal
import Domoticz.Web.Dispatch
import Domoticz.Plugin.HttpRoundTrip
import Domoticz.Plugin.MqttLength
import Domoticz.Plugin.WebSocketBounds
import Domoticz.Plugin.WebSocketDecoding
import Domoticz.Plugin.JsonTree
import Domoticz.Plugin.Icmp
import Domoticz.Plugin.MqttBounds
import Domoticz.Plugin.Flush
import Domoticz.Plugin.HttpLength
import Domoticz.Plugin.MqttIdentifiers
import Domoticz.Plugin.Insert
import Domoticz.Web.QueryParameters
import Domoticz.Web.Packets
import Domoticz.Web.Integers
import Domoticz.Plugin.StoredText
import Domoticz.Web.BodyColumns
import Domoticz.Main.LocalTime
import Domoticz.Web.Modifications
import Domoticz.Main.LogFlags
import Domoticz.Main.SunRiseSet
import Domoticz.Main.AcceptNewHardware
import Domoticz.JsonRoundTrip
import Domoticz.Main.Schedule
import Domoticz.Web.Documents
import Domoticz.Plugin.Serial
import Domoticz.Plugin.IcmpEcho
import Domoticz.Web.Handshake
import Domoticz.Plugin.WebSocketPeers
import Domoticz.Plugin.HttpPeers
