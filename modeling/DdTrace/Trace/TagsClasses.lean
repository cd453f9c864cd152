import DdTrace.Trace.TraceContext

/-!
# The classes of TagsList

The properties of each class that a span's tags can have: its own, behind those of the class it
extends. `TagsClass.New` are the tags of a new object: any values in the properties, and nothing
in the lists.
-/

namespace DdTrace.Trace

open Lib

namespace Tags

def instrumentationName : Text := text "component"
def spanKind : Text := text "span.kind"
def language : Text := text "language"
def httpMethod : Text := text "http.method"
def httpStatusCode : Text := text "http.status_code"
def httpUrl : Text := text "http.url"
def httpRequestHeadersHost : Text := text "http.request.headers.host"
def aspNetRoute : Text := text "aspnet.route"
def aspNetArea : Text := text "aspnet.area"
def aspNetController : Text := text "aspnet.controller"
def aspNetAction : Text := text "aspnet.action"
def aspNetCoreRoute : Text := text "aspnet_core.route"
def aspNetCoreArea : Text := text "aspnet_core.area"
def aspNetCoreController : Text := text "aspnet_core.controller"
def aspNetCoreEndpoint : Text := text "aspnet_core.endpoint"
def aspNetCorePage : Text := text "aspnet_core.page"
def aspNetCoreAction : Text := text "aspnet_core.action"
def awsAgentName : Text := text "aws.agent"
def awsOperationName : Text := text "aws.operation"
def awsRegion : Text := text "aws.region"
def awsRequestId : Text := text "aws.requestId"
def awsServiceName : Text := text "aws.service"
def awsQueueName : Text := text "aws.queue.name"
def awsQueueUrl : Text := text "aws.queue.url"
def aerospikeKey : Text := text "aerospike.key"
def aerospikeNamespace : Text := text "aerospike.namespace"
def aerospikeSetName : Text := text "aerospike.setname"
def aerospikeUserKey : Text := text "aerospike.userkey"
def azureFunctionTriggerType : Text := text "aas.function.trigger"
def azureFunctionName : Text := text "aas.function.name"
def azureFunctionMethod : Text := text "aas.function.method"
def azureFunctionBindingSource : Text := text "aas.function.binding"
def dbType : Text := text "db.type"
def dbName : Text := text "db.name"
def dbUser : Text := text "db.user"
def cosmosDbContainer : Text := text "cosmosdb.container"
def outHost : Text := text "out.host"
def outPort : Text := text "out.port"
def kafkaPartition : Text := text "kafka.partition"
def kafkaOffset : Text := text "kafka.offset"
def kafkaTombstone : Text := text "kafka.tombstone"
def msmqCommand : Text := text "msmq.command"
def msmqQueuePath : Text := text "msmq.queue.path"
def msmqIsTransactionalQueue : Text := text "msmq.queue.transactional"
def msmqMessageWithTransaction : Text := text "msmq.message.transactional"
def amqpCommand : Text := text "amqp.command"
def amqpDeliveryMode : Text := text "amqp.delivery_mode"
def amqpExchange : Text := text "amqp.exchange"
def amqpQueue : Text := text "amqp.queue"
def amqpRoutingKey : Text := text "amqp.routing_key"
def messageSize : Text := text "message.size"
def redisRawCommand : Text := text "redis.raw_command"
def graphQLSource : Text := text "graphql.source"
def graphQLOperationName : Text := text "graphql.operation.name"
def graphQLOperationType : Text := text "graphql.operation.type"
def elasticsearchAction : Text := text "elasticsearch.action"
def elasticsearchMethod : Text := text "elasticsearch.method"
def elasticsearchUrl : Text := text "elasticsearch.url"
def mongoDbQuery : Text := text "mongodb.query"
def mongoDbCollection : Text := text "mongodb.collection"

end Tags

def Metrics.messageQueueTimeMs : Text := text "message.queue_time_ms"

/-! ## The properties -/

/-- The key of a property, and whether it is read-only. -/
abbrev PropertyKey := Text × Bool

def readWrite (key : Text) : PropertyKey := (key, false)

def readOnly (key : Text) : PropertyKey := (key, true)

def commonTagsProperties : List PropertyKey := [readWrite Tags.env, readWrite Tags.version]

def commonMetricsProperties : List PropertyKey :=
  [readWrite Metrics.samplingLimitDecision, readWrite Metrics.samplingPriority,
    readWrite Metrics.tracesKeepRate]

def instrumentationTagsProperties : List PropertyKey :=
  commonTagsProperties ++ [readOnly Tags.spanKind]

def instrumentationMetricsProperties : List PropertyKey :=
  commonMetricsProperties ++ [readWrite Tags.analytics]

def webTagsProperties : List PropertyKey :=
  instrumentationTagsProperties ++ [readWrite Tags.httpStatusCode, readWrite Tags.httpMethod,
    readWrite Tags.httpRequestHeadersHost, readWrite Tags.httpUrl, readOnly Tags.language]

def httpTagsProperties : List PropertyKey :=
  instrumentationTagsProperties ++ [readWrite Tags.httpStatusCode,
    readWrite (text "http-client-handler-type"), readWrite Tags.httpMethod, readWrite Tags.httpUrl,
    readWrite Tags.instrumentationName]

def aspNetTagsProperties : List PropertyKey :=
  webTagsProperties ++ [readWrite Tags.aspNetRoute, readWrite Tags.aspNetArea,
    readWrite Tags.aspNetController, readWrite Tags.aspNetAction]

def aspNetCoreTagsProperties : List PropertyKey :=
  webTagsProperties ++ [readOnly Tags.instrumentationName]

def aspNetCoreEndpointTagsProperties : List PropertyKey :=
  aspNetCoreTagsProperties ++ [readWrite Tags.aspNetCoreRoute, readWrite Tags.aspNetCoreArea,
    readWrite Tags.aspNetCoreController, readWrite Tags.aspNetCoreEndpoint,
    readWrite Tags.aspNetCorePage, readWrite Tags.aspNetCoreAction]

def awsSdkTagsProperties : List PropertyKey :=
  instrumentationTagsProperties ++ [readOnly Tags.instrumentationName, readOnly Tags.awsAgentName,
    readWrite Tags.awsOperationName, readWrite Tags.awsRegion, readWrite Tags.awsRequestId,
    readWrite Tags.awsServiceName, readWrite Tags.httpMethod, readWrite Tags.httpStatusCode,
    readWrite Tags.httpUrl]

def awsSqsTagsProperties : List PropertyKey :=
  awsSdkTagsProperties ++ [readWrite Tags.awsQueueName, readWrite Tags.awsQueueUrl]

def aerospikeTagsProperties : List PropertyKey :=
  instrumentationTagsProperties ++ [readOnly Tags.instrumentationName, readWrite Tags.aerospikeKey,
    readWrite Tags.aerospikeNamespace, readWrite Tags.aerospikeSetName,
    readWrite Tags.aerospikeUserKey]

def azureFunctionRootTagsProperties : List PropertyKey :=
  instrumentationTagsProperties ++ [readOnly Tags.instrumentationName, readOnly Tags.language,
    readWrite Tags.azureFunctionTriggerType, readWrite Tags.azureFunctionName,
    readWrite Tags.azureFunctionMethod, readWrite Tags.azureFunctionBindingSource]

def cosmosDbTagsProperties : List PropertyKey :=
  instrumentationTagsProperties ++ [readOnly Tags.instrumentationName, readWrite Tags.dbType,
    readWrite Tags.dbName, readWrite Tags.cosmosDbContainer, readWrite Tags.outHost]

def kafkaTagsProperties : List PropertyKey :=
  instrumentationTagsProperties ++ [readOnly Tags.instrumentationName, readWrite Tags.kafkaPartition,
    readWrite Tags.kafkaOffset, readWrite Tags.kafkaTombstone]

def kafkaTagsMetrics : List PropertyKey :=
  instrumentationMetricsProperties ++ [readWrite Metrics.messageQueueTimeMs]

def msmqTagsProperties : List PropertyKey :=
  instrumentationTagsProperties ++ [readOnly Tags.instrumentationName, readWrite Tags.msmqCommand,
    readWrite Tags.msmqQueuePath, readWrite Tags.msmqIsTransactionalQueue,
    readWrite Tags.msmqMessageWithTransaction]

def rabbitMQTagsProperties : List PropertyKey :=
  instrumentationTagsProperties ++ [readWrite Tags.instrumentationName, readWrite Tags.amqpCommand,
    readWrite Tags.amqpDeliveryMode, readWrite Tags.amqpExchange, readWrite Tags.amqpQueue,
    readWrite Tags.amqpRoutingKey, readWrite Tags.messageSize]

def redisTagsProperties : List PropertyKey :=
  instrumentationTagsProperties ++ [readOnly Tags.instrumentationName,
    readWrite Tags.redisRawCommand, readWrite Tags.outPort, readWrite Tags.outHost]

def graphQLTagsProperties : List PropertyKey :=
  instrumentationTagsProperties ++ [readOnly Tags.instrumentationName, readWrite Tags.graphQLSource,
    readWrite Tags.graphQLOperationName, readWrite Tags.graphQLOperationType, readOnly Tags.language]

def elasticsearchTagsProperties : List PropertyKey :=
  instrumentationTagsProperties ++ [readOnly Tags.instrumentationName,
    readWrite Tags.elasticsearchAction, readWrite Tags.elasticsearchMethod,
    readWrite Tags.elasticsearchUrl]

def mongoDbTagsProperties : List PropertyKey :=
  instrumentationTagsProperties ++ [readOnly Tags.instrumentationName, readWrite Tags.dbName,
    readWrite Tags.mongoDbQuery, readWrite Tags.mongoDbCollection, readWrite Tags.outHost,
    readWrite Tags.outPort]

def sqlTagsProperties : List PropertyKey :=
  instrumentationTagsProperties ++ [readWrite Tags.dbType, readOnly Tags.instrumentationName,
    readWrite Tags.dbName, readWrite Tags.dbUser, readWrite Tags.outHost]

/-- `TagNames` of `ServiceRemotingTags`. -/
def serviceRemotingTagProperties : List PropertyKey :=
  instrumentationTagsProperties ++ [readWrite (text "service-fabric.application-id"),
    readWrite (text "service-fabric.application-name"), readWrite (text "service-fabric.partition-id"),
    readWrite (text "service-fabric.node-id"), readWrite (text "service-fabric.node-name"),
    readWrite (text "service-fabric.service-name"), readWrite (text "service-fabric.service-remoting.uri"),
    readWrite (text "service-fabric.service-remoting.method-name"),
    readWrite (text "service-fabric.service-remoting.method-id"),
    readWrite (text "service-fabric.service-remoting.interface-id"),
    readWrite (text "service-fabric.service-remoting.invocation-id")]

/-! ## The classes -/

/-- The classes that are not abstract. -/
inductive TagsClass where
  | commonTags
  | webTags
  | httpTags
  | aspNetTags
  | aspNetCoreTags
  | aspNetCoreEndpointTags
  | awsSqsTags
  | aerospikeTags
  | azureFunctionsTags
  | cosmosDbTags
  | kafkaTags
  | msmqTags
  | rabbitMQTags
  | redisTags
  | graphQLTags
  | elasticsearchTags
  | mongoDbTags
  | sqlTags
  | serviceRemotingTags
  deriving DecidableEq

namespace TagsClass

def getAdditionalTags : TagsClass → List PropertyKey
  | commonTags => commonTagsProperties
  | webTags => webTagsProperties
  | httpTags => httpTagsProperties
  | aspNetTags => aspNetTagsProperties
  | aspNetCoreTags => aspNetCoreTagsProperties
  | aspNetCoreEndpointTags => aspNetCoreEndpointTagsProperties
  | awsSqsTags => awsSqsTagsProperties
  | aerospikeTags => aerospikeTagsProperties
  | azureFunctionsTags => azureFunctionRootTagsProperties
  | cosmosDbTags => cosmosDbTagsProperties
  | kafkaTags => kafkaTagsProperties
  | msmqTags => msmqTagsProperties
  | rabbitMQTags => rabbitMQTagsProperties
  | redisTags => redisTagsProperties
  | graphQLTags => graphQLTagsProperties
  | elasticsearchTags => elasticsearchTagsProperties
  | mongoDbTags => mongoDbTagsProperties
  | sqlTags => sqlTagsProperties
  | serviceRemotingTags => serviceRemotingTagProperties

def getAdditionalMetrics : TagsClass → List PropertyKey
  | commonTags => commonMetricsProperties
  | kafkaTags => kafkaTagsMetrics
  | _ => instrumentationMetricsProperties

theorem nodup_additionalTags (c : TagsClass) : (c.getAdditionalTags.map Prod.fst).Nodup := by
  cases c <;> decide +kernel

theorem nodup_additionalMetrics (c : TagsClass) : (c.getAdditionalMetrics.map Prod.fst).Nodup := by
  cases c <;> decide

/-- The tags of a new object of the class. -/
structure New (c : TagsClass) (t : ITags) : Prop where
  tags : t.tags.properties.map (fun p => (p.key, p.isReadOnly)) = c.getAdditionalTags
  metrics : t.metrics.properties.map (fun p => (p.key, p.isReadOnly)) = c.getAdditionalMetrics
  noTags : t.tags.extra = []
  noMetrics : t.metrics.extra = []

theorem New.keys_tags {c : TagsClass} {t : ITags} (h : c.New t) :
    t.tags.properties.map Property.key = c.getAdditionalTags.map Prod.fst := by
  rw [← h.tags, List.map_map]
  rfl

theorem New.keys_metrics {c : TagsClass} {t : ITags} (h : c.New t) :
    t.metrics.properties.map Property.key = c.getAdditionalMetrics.map Prod.fst := by
  rw [← h.metrics, List.map_map]
  rfl

theorem New.distinct_tags {c : TagsClass} {t : ITags} (h : c.New t) : t.tags.Distinct where
  properties := by rw [h.keys_tags]; exact c.nodup_additionalTags
  extra := by rw [h.noTags]; exact List.nodup_nil
  disjoint := by simp [h.noTags]

theorem New.distinct_metrics {c : TagsClass} {t : ITags} (h : c.New t) : t.metrics.Distinct where
  properties := by rw [h.keys_metrics]; exact c.nodup_additionalMetrics
  extra := by rw [h.noMetrics]; exact List.nodup_nil
  disjoint := by simp [h.noMetrics]

theorem commonTags_new : commonTags.New .commonTags := ⟨rfl, rfl, rfl, rfl⟩

end TagsClass

end DdTrace.Trace
